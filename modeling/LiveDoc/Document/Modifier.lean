import LiveDoc.Data.NameTable
import LiveDoc.Text.Basic

namespace LiveDoc

inductive Modifier where
  | noExec
  | hideOutput
  | outputOnly
  | artifactOnly
  | silent
  deriving DecidableEq, Repr

namespace Modifier

def all : List Modifier := [.noExec, .hideOutput, .outputOnly, .artifactOnly, .silent]

def token : Modifier → String
  | .noExec => "no-exec"
  | .hideOutput => "hide-output"
  | .outputOnly => "output-only"
  | .artifactOnly => "artifact-only"
  | .silent => "silent"

def ofToken? (token : String) : Option Modifier := all.find? fun m => m.token == token

-- All but one only make sense on a block that runs.
def needsExecution (m : Modifier) : Bool := m != .noExec

-- Which of two displays wins is never guessed: only hiding the output of a block that shows
-- its artifacts alone is harmless.
def conflicts : Modifier → Modifier → Bool
  | .noExec, other => other != .noExec
  | other, .noExec => other != .noExec
  | .outputOnly, other => other != .outputOnly
  | other, .outputOnly => other != .outputOnly
  | .silent, other => other != .silent
  | other, .silent => other != .silent
  | _, _ => false

theorem mem_all (m : Modifier) : m ∈ all := by
  cases m <;> decide

theorem conflicts_comm (a b : Modifier) : a.conflicts b = b.conflicts a := by
  cases a <;> cases b <;> rfl

theorem conflicts_self (a : Modifier) : a.conflicts a = false := by
  cases a <;> rfl

end Modifier

-- The modifiers of one block, each at most once and in the order of `Modifier.all`.
structure ModifierSet where
  members : List Modifier
  deriving DecidableEq, Repr

namespace ModifierSet

def empty : ModifierSet := ⟨[]⟩

def contains (set : ModifierSet) (m : Modifier) : Bool := set.members.contains m

def ofList (modifiers : List Modifier) : ModifierSet :=
  ⟨Modifier.all.filter fun m => modifiers.contains m⟩

def executes (set : ModifierSet) : Bool := !set.contains .noExec

def showsCode (set : ModifierSet) : Bool :=
  !(set.contains .outputOnly || set.contains .artifactOnly || set.contains .silent)

def showsOutput (set : ModifierSet) : Bool :=
  !(set.contains .hideOutput || set.contains .artifactOnly || set.contains .silent)

def showsArtifacts (set : ModifierSet) : Bool := !set.contains .silent

def display (set : ModifierSet) : String :=
  "\x7b" ++ Text.joined ", " (set.members.map Modifier.token) ++ "\x7d"

@[simp] theorem contains_ofList (modifiers : List Modifier) (m : Modifier) :
    (ofList modifiers).contains m = modifiers.contains m := by
  simp [contains, ofList, List.mem_filter, Modifier.mem_all]

end ModifierSet

-- The accepted tags: the tokens themselves and the aliases, which never hide a token.
structure Registry where
  aliases : NameTable Modifier
  deriving DecidableEq, Repr

namespace Registry

def standard : Registry := ⟨[]⟩

def addAlias (registry : Registry) (name : String) (target : Modifier) : Registry :=
  ⟨NameTable.put name target registry.aliases⟩

def lookup? (registry : Registry) (tag : String) : Option Modifier :=
  (Modifier.ofToken? tag).or (NameTable.find? tag registry.aliases)

def known (registry : Registry) : List String :=
  Modifier.all.map Modifier.token ++ NameTable.names registry.aliases

end Registry

end LiveDoc
