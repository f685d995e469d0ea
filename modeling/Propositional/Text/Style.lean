/-!
# Styled text

Text is styled for a terminal by control sequences around it: one that lists
the codes of its effects, and one that ends them.
-/

namespace Propositional.Text

/-- What a style does to text. -/
inductive Effect where
  | bold
  | dimmed
  | red
  | green
deriving DecidableEq

/-- The code of an effect. -/
def Effect.code : Effect → String
  | bold => "1"
  | dimmed => "2"
  | red => "31"
  | green => "32"

/-- The text with effects, if it is to be styled at all. Assumed of `colored`: one control
sequence before the text lists the codes, that of a colour last, and one behind it ends them
all. -/
def styled (styling : Bool) (effects : List Effect) (text : String) : String :=
  if styling then "\x1b[" ++ ";".intercalate (effects.map Effect.code) ++ "m" ++ text ++ "\x1b[0m"
  else text

/-- The text in the middle of `width` characters, one blank more behind it than
before if they are odd in number. -/
def centered (width : Nat) (text : String) : String :=
  let blanks := width - text.length
  String.ofList (List.replicate (blanks / 2) ' ') ++ text ++
    String.ofList (List.replicate (blanks - blanks / 2) ' ')

end Propositional.Text
