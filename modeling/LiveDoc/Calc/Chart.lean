import LiveDoc.Decimal.Shortest

namespace LiveDoc.Calc.Chart

def width : Float := 400.0

def height : Float := 240.0

def margin : Float := 20.0

def titleBand : Float := 24.0

def escape (text : String) : String :=
  String.join <| text.toList.map fun c =>
    match c with
    | '&' => "&amp;"
    | '<' => "&lt;"
    | '>' => "&gt;"
    | '\x22' => "&quot;"
    | other => String.singleton other

-- A number to two places, a half going away from zero.
def hundredths (value : Float) : Float := (value * 100.0).round / 100.0

def property (name : String) (value : Float) : String :=
  " " ++ name ++ "=\"" ++ Decimal.text value ++ "\""

def positive (value : Float) : Float := if 0.0 < value then value else 0.0

def bar (slot scale : Float) (index : Nat) (value : Float) : String :=
  let tall := hundredths (positive value * scale)
  let left := margin + slot * Float.ofNat index + slot * 0.1
  "  <rect" ++ property "x" (hundredths left) ++
    property "y" (hundredths (height - margin - tall)) ++
    property "width" ((slot * 80.0).round / 100.0) ++ property "height" tall ++
    " fill=\"steelblue\"/>\n"

-- A bar chart as SVG. Bars of negative values have no height.
def svg (title : String) (values : List Float) : String :=
  let tallest := values.foldl (fun most value => if most < value then value else most) 0.0
  let plot := height - 2.0 * margin - titleBand
  let scale := if 0.0 < tallest then plot / tallest else 0.0
  let slot := (width - 2.0 * margin) / Float.ofNat values.length
  let size := Decimal.text width ++ " " ++ Decimal.text height
  "<svg xmlns=\"http://www.w3.org/2000/svg\"" ++ property "width" width ++
    property "height" height ++ " viewBox=\"0 0 " ++ size ++ "\">\n" ++
    "  <text" ++ property "x" (width / 2.0) ++ property "y" margin ++
    " text-anchor=\"middle\" font-family=\"sans-serif\" font-size=\"14\">" ++ escape title ++
    "</text>\n" ++
    String.join (values.mapIdx (bar slot scale)) ++ "</svg>\n"

end LiveDoc.Calc.Chart
