import Propositional.Text.Style

/-!
# What is seen of styled text

A control sequence begins with the escape character and `[`, and ends with the next `m`.
`unstyled` is a text without its control sequences. A text `Shows` another one if that is
what is seen of it, whatever stands behind it. Texts that are put together show what their
parts show (`Shows.append`, `shows_join`, `shows_intercalate`); a text without escape
characters shows itself (`shows_self`), and so it does when it is styled (`shows_styled`).
-/

namespace Propositional.Text

/-- The character that every control sequence begins with. -/
def escapeChar : Char := '\x1b'

mutual

/-- The characters of a text that are in no control sequence. -/
def seen : List Char → List Char
  | [] => []
  | [c] => [c]
  | c :: d :: rest => if c = escapeChar ∧ d = '[' then hidden rest else c :: seen (d :: rest)

/-- The same of a text that begins inside of a control sequence. -/
def hidden : List Char → List Char
  | [] => []
  | c :: rest => if c = 'm' then seen rest else hidden rest

end

/-- The text without its control sequences. -/
def unstyled (text : String) : String :=
  String.ofList (seen text.toList)

/-- What is seen of `text` is `visible`, and nothing behind it is hidden. -/
def Shows (text visible : String) : Prop :=
  ∀ rest : List Char, seen (text.toList ++ rest) = visible.toList ++ seen rest

/-! ## Characters -/

theorem seen_cons {c : Char} (h : c ≠ escapeChar) (rest : List Char) :
    seen (c :: rest) = c :: seen rest := by
  cases rest with
  | nil => rfl
  | cons d rest => rw [seen, if_neg fun hc => h hc.1]

theorem seen_append {chars : List Char} (h : escapeChar ∉ chars) (rest : List Char) :
    seen (chars ++ rest) = chars ++ seen rest := by
  induction chars with
  | nil => rfl
  | cons c chars ih =>
    rw [List.mem_cons, not_or] at h
    rw [List.cons_append, seen_cons (Ne.symm h.1), ih h.2, List.cons_append]

theorem hidden_append {codes : List Char} (h : 'm' ∉ codes) (rest : List Char) :
    hidden (codes ++ 'm' :: rest) = seen rest := by
  induction codes with
  | nil => rfl
  | cons c codes ih =>
    rw [List.mem_cons, not_or] at h
    rw [List.cons_append, hidden, if_neg (Ne.symm h.1), ih h.2]

/-- What is in neither the separator nor the parts is not in the whole. -/
theorem not_mem_intercalate {x : Char} {separator : List Char} {parts : List (List Char)}
    (hs : x ∉ separator) (hp : ∀ part ∈ parts, x ∉ part) : x ∉ separator.intercalate parts := by
  induction parts with
  | nil => simp
  | cons part parts ih =>
    obtain ⟨hpart, hparts⟩ := List.forall_mem_cons.1 hp
    cases parts with
    | nil => rwa [List.intercalate_singleton]
    | cons next parts =>
      rw [List.intercalate_cons_cons, List.mem_append, List.mem_append]
      rintro ((h | h) | h)
      · exact hpart h
      · exact hs h
      · exact ih hparts h

/-! ## Texts -/

variable {s t u v : String} {α : Type}

theorem Shows.unstyled_eq (h : Shows s t) : unstyled s = t := by
  have hseen := h []
  rw [List.append_nil, show seen [] = [] from rfl, List.append_nil] at hseen
  rw [unstyled, hseen, String.ofList_toList]

theorem shows_self (h : escapeChar ∉ s.toList) : Shows s s :=
  fun rest => seen_append h rest

theorem Shows.append (h : Shows s t) (h' : Shows u v) : Shows (s ++ u) (t ++ v) := by
  intro rest
  rw [String.toList_append, List.append_assoc, h, h', String.toList_append, List.append_assoc]

/-- Nothing is seen of a control sequence. -/
theorem shows_sequence {codes : String} (h : 'm' ∉ codes.toList) :
    Shows ("\x1b[" ++ codes ++ "m") "" := by
  intro rest
  rw [String.toList_append, String.toList_append, List.append_assoc, List.append_assoc]
  show (if '\x1b' = escapeChar ∧ '[' = '[' then hidden (codes.toList ++ 'm' :: rest) else _) = _
  rw [if_pos ⟨rfl, rfl⟩, hidden_append h]
  rfl

theorem not_mem_codes (effects : List Effect) :
    'm' ∉ (";".intercalate (effects.map Effect.code)).toList := by
  rw [String.toList_intercalate, List.map_map]
  refine not_mem_intercalate (by decide) (List.forall_mem_map.2 fun effect _ => ?_)
  cases effect <;> decide

/-- Styled or not, a text shows itself. -/
theorem shows_styled (styling : Bool) (effects : List Effect) (h : escapeChar ∉ s.toList) :
    Shows (styled styling effects s) s := by
  cases styling with
  | false => exact shows_self h
  | true =>
    have hstart := shows_sequence (not_mem_codes effects)
    have hend : Shows "\x1b[0m" "" := @shows_sequence "0" (by decide)
    have hall := (hstart.append (shows_self h)).append hend
    rwa [String.empty_append, String.append_empty] at hall

theorem shows_join {f g : α → String} {as : List α} (h : ∀ a ∈ as, Shows (f a) (g a)) :
    Shows (String.join (as.map f)) (String.join (as.map g)) := by
  induction as with
  | nil => exact shows_self List.not_mem_nil
  | cons a as ih =>
    obtain ⟨ha, has⟩ := List.forall_mem_cons.1 h
    rw [List.map_cons, List.map_cons, String.join_cons, String.join_cons]
    exact ha.append (ih has)

theorem shows_intercalate {separator : String} {f g : α → String} {as : List α}
    (hs : escapeChar ∉ separator.toList) (h : ∀ a ∈ as, Shows (f a) (g a)) :
    Shows (separator.intercalate (as.map f)) (separator.intercalate (as.map g)) := by
  induction as with
  | nil => exact shows_self List.not_mem_nil
  | cons a as ih =>
    obtain ⟨ha, has⟩ := List.forall_mem_cons.1 h
    cases as with
    | nil =>
      rw [List.map_singleton, List.map_singleton, String.intercalate_singleton,
        String.intercalate_singleton]
      exact ha
    | cons b as =>
      have htail := ih has
      rw [List.map_cons, List.map_cons] at htail
      rw [List.map_cons, List.map_cons, List.map_cons, List.map_cons,
        String.intercalate_cons_cons, String.intercalate_cons_cons]
      exact (ha.append (shows_self hs)).append htail

end Propositional.Text
