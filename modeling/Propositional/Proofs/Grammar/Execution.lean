import Mathlib.Logic.ExistsUnique
import Propositional.Proofs.Grammar.Progress

/-!
# The rules as procedures that call each other

`Rule.code` is the procedure of a rule, in which every operand is read by a call of another
rule. `Code.Runs` executes procedures: a call executes the procedure of its rule, and a
repetition executes its body over and over. No call is kept from being made on as much text as
before, so an execution may as well go on forever. Where it comes to an end, it has an outcome,
and that is the outcome of the parser (`Code.Runs.eq_parser`). It may also be `Code.Stuck` in a
repetition whose body succeeds without having read anything.

That every execution of a rule comes to an end (`Code.answers_call`) is shown along the length
of the text and, on one text, along the order in which the rules call each other. A parenthesis
and a negation call nothing before they have read their sign, a primary calls these two, and an
expression calls primaries on no more text than its own. That none is stuck
(`Code.not_stuck_call`) comes of the one body that the rules repeat, which is a link of a chain.
-/

namespace Propositional.Grammar

open Parsing

variable {σ α β : Type}

/-! ## Procedures -/

/-- A procedure of the grammar. -/
inductive Code : Type → Type 1 where
  | literal (token : List Char) : Code (List Char)
  | satisfy (accept : Char → Bool) : Code Char
  | map {α β : Type} (f : α → β) (code : Code α) : Code β
  | orElse {α : Type} (first second : Code α) : Code α
  | sequence {α β : Type} (first : Code α) (second : Code β) : Code (α × β)
  | many {α : Type} (body : Code α) : Code (List α)
  /-- Reads an operand if the guard lets it. -/
  | nested {α : Type} (operand : Code α) : Code α
  /-- Executes the procedure of a rule. -/
  | call (rule : Rule) : Code Formula

namespace Code

def constant : Code Formula :=
  orElse (map (fun _ => .const false) (literal ['0'])) (map (fun _ => .const true) (literal ['1']))

def letter : Code Formula :=
  map .var (satisfy Char.isAlpha)

def connective : Code Connective :=
  orElse (map (fun _ => .conjunction) (literal ['*']))
    (orElse (map (fun _ => .disjunction) (literal ['+']))
      (map (fun _ => .implication) (literal ['=', '>'])))

/-- A connective and the primary behind it. -/
def link : Code (Connective × Formula) :=
  sequence connective (call .primary)

end Code

/-- The procedure of a rule. -/
def Rule.code : Rule → Code Formula
  | expression =>
    .map (fun parts => joinLeft parts.1 parts.2) (.sequence (.call primary) (.many .link))
  | primary =>
    .orElse (.call parenthesized) (.orElse (.call negation) (.orElse .constant .letter))
  | parenthesized =>
    .map (fun parts => parts.2.1)
      (.sequence (.literal ['(']) (.nested (.sequence (.call expression) (.literal [')']))))
  | negation =>
    .map (fun parts => .neg parts.2) (.sequence (.literal ['-']) (.nested (.call primary)))

namespace Code

/-- The parser that a procedure stands for. -/
def parser (guard : Guard σ) : {α : Type} → Code α → Parser σ α
  | _, literal token => Parsing.literal token
  | _, satisfy accept => Parsing.satisfy accept
  | _, map f code => Parsing.map f (code.parser guard)
  | _, orElse first second => Parsing.orElse (first.parser guard) (second.parser guard)
  | _, sequence first second => Parsing.sequence (first.parser guard) (second.parser guard)
  | _, many body => Parsing.many (body.parser guard)
  | _, nested operand => guard.nested (operand.parser guard)
  | _, call rule => rule.parser guard

/-- The procedure of a rule stands for the parser of the rule. -/
theorem parser_code (guard : Guard σ) (rule : Rule) :
    rule.code.parser guard = rule.parser guard := by
  cases rule with
  | primary => exact (primary_eq guard).symm
  | expression => rfl
  | parenthesized => rfl
  | negation => rfl

/-! ## Executions -/

/-- An execution that comes to an end, with its outcome. -/
inductive Runs (guard : Guard σ) : {α : Type} → Code α → Stream σ → Outcome σ α → Prop
  | literal (token : List Char) (s : Stream σ) :
      Runs guard (.literal token) s (Parsing.literal token s)
  | satisfy (accept : Char → Bool) (s : Stream σ) :
      Runs guard (.satisfy accept) s (Parsing.satisfy accept s)
  | map {α β : Type} {f : α → β} {p : Code α} {s : Stream σ} {o : Outcome σ α} :
      Runs guard p s o → Runs guard (.map f p) s (o.map f)
  | first {α : Type} {p q : Code α} {s t : Stream σ} {a : α} :
      Runs guard p s (.ok a t) → Runs guard (.orElse p q) s (.ok a t)
  | first_cut {α : Type} {p q : Code α} {s t : Stream σ} :
      Runs guard p s (.cut t) → Runs guard (.orElse p q) s (.cut t)
  /-- The second procedure is executed on the text of the first, with the state that it left. -/
  | second {α : Type} {p q : Code α} {s t : Stream σ} {o : Outcome σ α} :
      Runs guard p s (.backtrack t) → Runs guard q (t.rewind s.rest) o →
      Runs guard (.orElse p q) s o
  | sequence {α β : Type} {p : Code α} {q : Code β} {s t u : Stream σ} {a : α} {b : β} :
      Runs guard p s (.ok a t) → Runs guard q t (.ok b u) →
      Runs guard (.sequence p q) s (.ok (a, b) u)
  | sequence_backtrack {α β : Type} {p : Code α} {q : Code β} {s t : Stream σ} :
      Runs guard p s (.backtrack t) →
      Runs guard (.sequence p q) s (.backtrack (t.rewind s.rest))
  | sequence_cut {α β : Type} {p : Code α} {q : Code β} {s t : Stream σ} :
      Runs guard p s (.cut t) → Runs guard (.sequence p q) s (.cut (t.rewind s.rest))
  | sequence_ok_backtrack {α β : Type} {p : Code α} {q : Code β} {s t u : Stream σ} {a : α} :
      Runs guard p s (.ok a t) → Runs guard q t (.backtrack u) →
      Runs guard (.sequence p q) s (.backtrack (u.rewind s.rest))
  | sequence_ok_cut {α β : Type} {p : Code α} {q : Code β} {s t u : Stream σ} {a : α} :
      Runs guard p s (.ok a t) → Runs guard q t (.cut u) →
      Runs guard (.sequence p q) s (.cut (u.rewind s.rest))
  | many_stop {α : Type} {body : Code α} {s t : Stream σ} :
      Runs guard body s (.backtrack t) → Runs guard (.many body) s (.ok [] (t.rewind s.rest))
  | many_cut {α : Type} {body : Code α} {s t : Stream σ} :
      Runs guard body s (.cut t) → Runs guard (.many body) s (.cut t)
  /-- A repetition goes on where its body has read something. Where the body succeeds without
  having read, the repetition has no outcome. -/
  | many_next {α : Type} {body : Code α} {s t : Stream σ} {a : α} {o : Outcome σ (List α)} :
      Runs guard body s (.ok a t) → t.rest.length < s.rest.length →
      Runs guard (.many body) t o → Runs guard (.many body) s (o.map (a :: ·))
  | nested {α : Type} {p : Code α} {s : Stream σ} {inner : σ} {o : Outcome σ α} :
      guard.enter s.rest s.state = .ok inner → Runs guard p ⟨s.rest, inner⟩ o →
      Runs guard (.nested p) s (o.mapState guard.leave)
  | refused {α : Type} {p : Code α} {s : Stream σ} {state : σ} :
      guard.enter s.rest s.state = .error state → Runs guard (.nested p) s (.cut ⟨s.rest, state⟩)
  | call {rule : Rule} {s : Stream σ} {o : Outcome σ Formula} :
      Runs guard rule.code s o → Runs guard (.call rule) s o

variable {guard : Guard σ}

/-- An execution that comes to an end has the outcome of the parser. -/
theorem Runs.eq_parser {p : Code α} {s : Stream σ} {o : Outcome σ α} (h : Runs guard p s o) :
    p.parser guard s = o := by
  induction h with
  | literal => rfl
  | satisfy => rfl
  | map _ ih => rw [parser, Parsing.map, ih]
  | first _ ih => exact orElse_ok ih
  | first_cut _ ih => exact orElse_cut ih
  | second _ _ ihp ihq => exact (orElse_backtrack ihp).trans ihq
  | sequence _ _ ihp ihq => exact sequence_ok ihp ihq
  | sequence_backtrack _ ih => exact Parsing.sequence_backtrack ih
  | sequence_cut _ ih => exact Parsing.sequence_cut ih
  | sequence_ok_backtrack _ _ ihp ihq => exact Parsing.sequence_ok_backtrack ihp ihq
  | sequence_ok_cut _ _ ihp ihq => exact Parsing.sequence_ok_cut ihp ihq
  | many_stop _ ih => exact many_backtrack ih
  | many_cut _ ih => exact Parsing.many_cut ih
  | many_next _ hlt _ ihbody ihrest => exact (many_ok ihbody hlt).trans (congrArg _ ihrest)
  | nested he _ ih =>
    simp only [parser, Guard.nested, he]
    exact congrArg (Outcome.mapState guard.leave) ih
  | refused he => simp only [parser, Guard.nested, he]
  | @call rule _ _ _ ih => rwa [parser_code] at ih

/-! ## Repetitions that are stuck -/

/-- The execution comes to a repetition whose body succeeds without having read anything. -/
inductive Stuck (guard : Guard σ) : {α : Type} → Code α → Stream σ → Prop
  | here {α : Type} {body : Code α} {s t : Stream σ} {a : α} : Runs guard body s (.ok a t) →
      ¬ t.rest.length < s.rest.length → Stuck guard (.many body) s
  | body {α : Type} {body : Code α} {s : Stream σ} :
      Stuck guard body s → Stuck guard (.many body) s
  | again {α : Type} {body : Code α} {s t : Stream σ} {a : α} : Runs guard body s (.ok a t) →
      Stuck guard (.many body) t → Stuck guard (.many body) s
  | map {α β : Type} {f : α → β} {p : Code α} {s : Stream σ} :
      Stuck guard p s → Stuck guard (.map f p) s
  | first {α : Type} {p q : Code α} {s : Stream σ} :
      Stuck guard p s → Stuck guard (.orElse p q) s
  | second {α : Type} {p q : Code α} {s t : Stream σ} : Runs guard p s (.backtrack t) →
      Stuck guard q (t.rewind s.rest) → Stuck guard (.orElse p q) s
  | head {α β : Type} {p : Code α} {q : Code β} {s : Stream σ} :
      Stuck guard p s → Stuck guard (.sequence p q) s
  | tail {α β : Type} {p : Code α} {q : Code β} {s t : Stream σ} {a : α} :
      Runs guard p s (.ok a t) → Stuck guard q t → Stuck guard (.sequence p q) s
  | nested {α : Type} {p : Code α} {s : Stream σ} {inner : σ} :
      guard.enter s.rest s.state = .ok inner → Stuck guard p ⟨s.rest, inner⟩ →
      Stuck guard (.nested p) s
  | call {rule : Rule} {s : Stream σ} : Stuck guard rule.code s → Stuck guard (.call rule) s

/-- No body of a repetition succeeds without having read a character. -/
def Productive (guard : Guard σ) : {α : Type} → Code α → Prop
  | _, literal _ => True
  | _, satisfy _ => True
  | _, map _ code => code.Productive guard
  | _, orElse first second => first.Productive guard ∧ second.Productive guard
  | _, sequence first second => first.Productive guard ∧ second.Productive guard
  | _, many body => Advancing (body.parser guard) ∧ body.Productive guard
  | _, nested operand => operand.Productive guard
  | _, call _ => True

/-- The one repetition of the grammar is that of links. -/
theorem productive_code (guard : Guard σ) (rule : Rule) : rule.code.Productive guard := by
  cases rule with
  | expression => exact ⟨trivial, advancing_link guard, ⟨trivial, trivial, trivial⟩, trivial⟩
  | primary => exact ⟨trivial, trivial, ⟨trivial, trivial⟩, trivial⟩
  | parenthesized => exact ⟨trivial, trivial, trivial⟩
  | negation => exact ⟨trivial, trivial⟩

theorem Stuck.not_productive {p : Code α} {s : Stream σ} (h : Stuck guard p s) :
    ¬ p.Productive guard := by
  induction h with
  | here hbody hnot => exact fun hp => hnot (hp.1 hbody.eq_parser)
  | body _ ih => exact fun hp => ih hp.2
  | again _ _ ih => exact ih
  | map _ ih => exact ih
  | first _ ih => exact fun hp => ih hp.1
  | second _ _ ih => exact fun hp => ih hp.2
  | head _ ih => exact fun hp => ih hp.1
  | tail _ _ ih => exact fun hp => ih hp.2
  | nested _ _ ih => exact ih
  | @call rule _ _ ih => exact fun _ => ih (productive_code guard rule)

/-- No execution of a rule comes to a repetition that is stuck. -/
theorem not_stuck_call (guard : Guard σ) (rule : Rule) (s : Stream σ) :
    ¬ Stuck guard (.call rule) s :=
  fun h => h.not_productive trivial

/-! ## Executions come to an end -/

/-- The execution comes to an end, with the outcome of the parser. -/
def Answers (guard : Guard σ) (p : Code α) (s : Stream σ) : Prop :=
  Runs guard p s (p.parser guard s)

theorem Answers.runs {p : Code α} {s : Stream σ} {o : Outcome σ α} (h : Answers guard p s)
    (ho : p.parser guard s = o) : Runs guard p s o :=
  ho ▸ h

section

variable {p q : Code α} {r : Code β} {s : Stream σ}

theorem answers_literal (token : List Char) : Answers guard (.literal token) s :=
  .literal token s

theorem answers_satisfy (accept : Char → Bool) : Answers guard (.satisfy accept) s :=
  .satisfy accept s

theorem Answers.map (f : α → β) (h : Answers guard p s) : Answers guard (.map f p) s :=
  Runs.map h

theorem Answers.orElse (hp : Answers guard p s)
    (hq : ∀ t, p.parser guard s = .backtrack t → Answers guard q (t.rewind s.rest)) :
    Answers guard (.orElse p q) s := by
  rw [Answers, parser]
  cases hs : p.parser guard s with
  | ok a t => rw [orElse_ok hs]; exact .first (hp.runs hs)
  | cut t => rw [orElse_cut hs]; exact .first_cut (hp.runs hs)
  | backtrack t => rw [orElse_backtrack hs]; exact .second (hp.runs hs) (hq t hs)

theorem Answers.sequence (hp : Answers guard p s)
    (hr : ∀ a t, p.parser guard s = .ok a t → Answers guard r t) :
    Answers guard (.sequence p r) s := by
  rw [Answers, parser]
  cases hs : p.parser guard s with
  | backtrack t => rw [Parsing.sequence_backtrack hs]; exact .sequence_backtrack (hp.runs hs)
  | cut t => rw [Parsing.sequence_cut hs]; exact .sequence_cut (hp.runs hs)
  | ok a t =>
    have hrt := hr a t hs
    cases ht : r.parser guard t with
    | ok b u => rw [sequence_ok hs ht]; exact .sequence (hp.runs hs) (hrt.runs ht)
    | backtrack u =>
      rw [Parsing.sequence_ok_backtrack hs ht]
      exact .sequence_ok_backtrack (hp.runs hs) (hrt.runs ht)
    | cut u =>
      rw [Parsing.sequence_ok_cut hs ht]
      exact .sequence_ok_cut (hp.runs hs) (hrt.runs ht)

/-- A repetition of an advancing body comes to an end if its body does, on all that the
repetition may leave. -/
theorem Answers.many (ha : Advancing (p.parser guard)) {s : Stream σ}
    (hp : ∀ t : Stream σ, t.rest.length ≤ s.rest.length → Answers guard p t) :
    Answers guard (.many p) s := by
  have hps := hp s (Nat.le_refl _)
  rw [Answers, parser]
  cases hs : p.parser guard s with
  | backtrack t => rw [many_backtrack hs]; exact .many_stop (hps.runs hs)
  | cut t => rw [Parsing.many_cut hs]; exact .many_cut (hps.runs hs)
  | ok a t =>
    have hlt := ha hs
    rw [many_ok hs hlt]
    exact .many_next (hps.runs hs) hlt (Answers.many ha fun u hu => hp u (by omega))
termination_by s.rest.length

theorem Answers.nested (h : ∀ state, Answers guard p ⟨s.rest, state⟩) :
    Answers guard (.nested p) s := by
  simp only [Answers, parser, Guard.nested]
  cases he : guard.enter s.rest s.state with
  | error state => exact .refused he
  | ok inner => exact .nested he (h inner)

theorem Answers.call {rule : Rule} (h : Answers guard rule.code s) :
    Answers guard (.call rule) s := by
  rw [Answers, parser_code] at h
  exact Runs.call h

/-- Behind a character that was read, a procedure is executed on less text. -/
theorem Answers.afterLiteral {c : Char}
    (h : ∀ t : Stream σ, t.rest.length < s.rest.length → Answers guard r t) :
    Answers guard (.sequence (.literal [c]) r) s :=
  (answers_literal [c]).sequence fun _ t hs => h t (advancing_literal (by simp) hs)

end

theorem answers_constant {s : Stream σ} : Answers guard constant s :=
  ((answers_literal _).map _).orElse fun _ _ => (answers_literal _).map _

theorem answers_connective {s : Stream σ} : Answers guard connective s := by
  refine .orElse ((answers_literal _).map _) fun _ _ => ?_
  exact .orElse ((answers_literal _).map _) fun _ _ => (answers_literal _).map _

/-! ## The order of the calls -/

section

variable {s : Stream σ}
variable (h : ∀ rule (t : Stream σ), t.rest.length < s.rest.length → Answers guard (.call rule) t)

include h

/-- The calls of a parenthesis and of a negation are on less text. -/
theorem answers_parenthesized {s' : Stream σ} (hs : s'.rest.length ≤ s.rest.length) :
    Answers guard (.call .parenthesized) s' := by
  refine .call (.map _ (.afterLiteral fun t ht => .nested fun state => ?_))
  have hless : t.rest.length < s.rest.length := Nat.lt_of_lt_of_le ht hs
  exact (h .expression ⟨t.rest, state⟩ hless).sequence fun _ _ _ => answers_literal _

theorem answers_negation {s' : Stream σ} (hs : s'.rest.length ≤ s.rest.length) :
    Answers guard (.call .negation) s' := by
  refine .call (.map _ (.afterLiteral fun t ht => .nested fun state => ?_))
  exact h .primary ⟨t.rest, state⟩ (Nat.lt_of_lt_of_le ht hs)

/-- A primary calls these two on its own text. -/
theorem answers_primary {s' : Stream σ} (hs : s'.rest.length ≤ s.rest.length) :
    Answers guard (.call .primary) s' := by
  refine .call (.orElse (answers_parenthesized h hs) fun _ _ => ?_)
  refine .orElse (answers_negation h hs) fun _ _ => ?_
  exact .orElse answers_constant fun _ _ => (answers_satisfy _).map _

/-- An expression calls a primary on its own text, and others on what is left of it. -/
theorem answers_expression : Answers guard (.call .expression) s := by
  refine .call (.map _ (.sequence (answers_primary h (Nat.le_refl _)) fun p t hp => ?_))
  have ht : t.rest.length < s.rest.length := advancing_primary guard hp
  refine .many (p := link) (advancing_link guard) fun u hu =>
    answers_connective.sequence fun op v hop => ?_
  have hv : v.rest.length < u.rest.length := advancing_connective hop
  exact h .primary v (by omega)

end

/-- Every execution of a rule comes to an end: on less text by induction, and on the same text
since each rule calls only rules that are settled before it. -/
theorem answers_call (guard : Guard σ) (rule : Rule) (s : Stream σ) :
    Answers guard (.call rule) s := by
  have h : ∀ rule (t : Stream σ), t.rest.length < s.rest.length →
      Answers guard (.call rule) t := fun rule t _ => answers_call guard rule t
  cases rule with
  | parenthesized => exact answers_parenthesized h (Nat.le_refl _)
  | negation => exact answers_negation h (Nat.le_refl _)
  | primary => exact answers_primary h (Nat.le_refl _)
  | expression => exact answers_expression h
termination_by s.rest.length

/-- An execution of a rule has one outcome, which is that of its parser. -/
theorem runs_call_iff {rule : Rule} {s : Stream σ} {o : Outcome σ Formula} :
    Runs guard (.call rule) s o ↔ rule.parser guard s = o :=
  ⟨Runs.eq_parser, (answers_call guard rule s).runs⟩

end Code

/-- From every text and every nesting, the execution of a rule comes to an end with exactly one
outcome, which is that of its parser, and on its way no body of a repetition succeeds without
having read anything. Every rule, the connectives and the links of a chain read a character
where they succeed, and leave text and nesting as they were where they backtrack. -/
theorem rules_end_and_progress (limit : Nat) :
    (∀ (rule : Rule) (s : Stream Nesting),
      (∃! o, Code.Runs (Guard.atMost limit) (.call rule) s o) ∧
        Code.Runs (Guard.atMost limit) (.call rule) s (rule.parser (Guard.atMost limit) s) ∧
        ¬ Code.Stuck (Guard.atMost limit) (.call rule) s) ∧
    (∀ rule : Rule, Progressing (rule.parser (Guard.atMost limit))) ∧
    Progressing (connective : Parser Nesting Connective) ∧
    Progressing (sequence connective (primary (Guard.atMost limit))) := by
  have hg := Guard.balanced_atMost limit
  refine ⟨fun rule s => ⟨?_, ?_, ?_⟩, progressing_rule hg, progressing_connective hg,
    progressing_link hg⟩
  · exact ⟨_, Code.runs_call_iff.2 rfl, fun o h => (Code.runs_call_iff.1 h).symm⟩
  · exact Code.runs_call_iff.2 rfl
  · exact Code.not_stuck_call _ rule s

end Propositional.Grammar
