namespace LiveDoc

-- Two files hold the same when their bytes are the same. Every type with bytes in it is
-- compared by this.
instance decideBytes : DecidableEq ByteArray := fun a b =>
  decidable_of_iff (a.data = b.data) ⟨ByteArray.ext, fun h => h ▸ rfl⟩

end LiveDoc
