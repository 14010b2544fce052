import SignIn.Proofs.Match.Watchers
/-!
# The calls that an operator makes

The answer of one call is judged on its own (`Call.fault?`): by its length, its state and who was asked for what.  Which
calls an operator makes, and in which order, is a derivation with a rule for each way it may go on (`Matcher.Calls`):
operands make theirs one after the other; a rule with a callback asks it, and if the answer leaves the body to be run, the
body makes its calls and the callback is asked once more; a terminal asks its callback.  In such a log a call is at fault
only if it is the last one and the operator was broken off, by the error of that call (`Matcher.Calls.blames`).
-/
namespace SignIn

variable {D : Type}

/-! ## One call -/

/-- **The normal form** of what a callback wrote; what it left undecided stays so. -/
def Phrase.normal (p : Phrase) : Phrase :=
  match p.state with
  | .active => p
  | .matched => .ofLength p.length
  | .emptyMatch => .empty
  | .noMatch => .fail

theorem Phrase.state_normal_eq_active {p : Phrase} : p.normal.state = .active ↔ p.state = .active := by
  obtain ⟨state, n⟩ := p
  cases state with
  | active => simp [normal]
  | matched =>
    simp only [normal, ofLength]
    split <;> simp [empty]
  | emptyMatch => simp [normal, empty]
  | noMatch => simp [normal, fail]

def Grammar.udtNamed? (g : Grammar) (name : Text) : Option Udt := (g.udtId? name).bind fun id => g.udts[id.index]?

/-- **No terminal bears the name of a rule.** -/
theorem Grammar.udtNamed?_rule {g : Grammar}
    (hd : ((g.rules.toList.map Rule.name ++ g.udts.toList.map Udt.name).map foldCase).Nodup) {i : Nat} {rule : Rule}
    (h : g.rules[i]? = some rule) : g.udtNamed? rule.name = none := by
  have hi : (g.rules.toList.map Rule.name)[i]? = some rule.name := by simp [h]
  rw [udtNamed?, udtId?, lookup, resolveName_rule hd hi (sameName_iff.2 rfl)]
  rfl

theorem Grammar.udtNamed?_udt {g : Grammar}
    (hd : ((g.rules.toList.map Rule.name ++ g.udts.toList.map Udt.name).map foldCase).Nodup) {i : Nat} {udt : Udt}
    (h : g.udts[i]? = some udt) : g.udtNamed? udt.name = some udt := by
  have hi : (g.udts.toList.map Udt.name)[i]? = some udt.name := by simp [h]
  rw [udtNamed?, udtId?, lookup, resolveName_udt hd hi (sameName_iff.2 rfl)]
  exact h

/-- **How far an operator has come:** its operands have read a number of characters so far, or it ended, or it was broken
off. -/
inductive Progress where
  | running (length : Nat)
  | ended (phrase : Phrase)
  | broken (error : MatchError)

namespace Call

/-- **What is wrong with an answer.**  Its length is judged first, whatever the state.  It may be undecided if a rule was
asked before its body, and nothing else; and the terminal that was asked may have to read something. -/
def fault? (g : Grammar) (size : Nat) (c : Call D) : Option MatchError :=
  let answer := c.answer.1
  if size - c.offset < answer.length then some (.phraseOverrun c.name answer.length (size - c.offset))
  else if answer.state = .active then
    if c.given.state = .active ∧ (g.udtNamed? c.name).isNone then none else some (.activeReturn c.name)
  else if answer.normal = .empty ∧ (g.udtNamed? c.name).any (fun udt => !udt.acceptsEmpty) then some (.emptyUdt c.name)
  else none

/-- **What becomes of an operator** whose last call this is: it ends with the answer in normal form, or is broken off. -/
def settles (g : Grammar) (size : Nat) (c : Call D) : Progress :=
  match c.fault? g size with
  | some e => .broken e
  | none => .ended c.answer.1.normal

/-- **A call that leaves the body to be run:** the answer is undecided, and within what remains. -/
def Opens (g : Grammar) (size : Nat) (c : Call D) : Prop := c.fault? g size = none ∧ c.answer.1.state = .active

instance (g : Grammar) (size : Nat) (c : Call D) : Decidable (c.Opens g size) := by unfold Opens; infer_instance

/-- **A call of a callback** under a name, with a phrase at an offset. -/
structure Of (c : Call D) (f : Callback D) (input : Array Char) (name : Text) (p : Phrase) (o : Nat) : Prop where
  name : c.name = name
  given : c.given = p
  offset : c.offset = o
  answer : c.answer = f p input o c.held

end Call

/-! ## All calls of an operator -/

/-- **The calls that an operator makes** up to where it has come. -/
inductive Matcher.Calls (m : Matcher D) (input : Array Char) :
    Array Opcode → Nat → Nat → Progress → List (Call D) → Prop
  /-- an operator that refers to no rule and no terminal begins without a call -/
  | enter {code i o op} (hop : code[i]? = some op) (hsymbol : op.symbol? = none) :
    Calls m input code i o (.running 0) []
  /-- its operands make their calls one after the other, each where the former ended -/
  | operand {code i o op n child p before inner} (hop : code[i]? = some op) (hchild : child ∈ op.children)
    (hbefore : Calls m input code i o (.running n) before) (hinner : Calls m input code child (o + n) (.ended p) inner) :
    Calls m input code i o (.running (n + p.length)) (before ++ inner)
  | leave {code i o n p calls} (hfits : p.Fits input.size o) (h : Calls m input code i o (.running n) calls) :
    Calls m input code i o (.ended p) calls
  /-- an operand that is broken off breaks off the operator -/
  | operandBroken {code i o op n child e before inner} (hop : code[i]? = some op) (hchild : child ∈ op.children)
    (hbefore : Calls m input code i o (.running n) before) (hinner : Calls m input code child (o + n) (.broken e) inner) :
    Calls m input code i o (.broken e) (before ++ inner)
  /-- a rule without a callback makes the calls of its body -/
  | body {code i o id rule x calls} (hop : code[i]? = some (.rnm id)) (hrule : m.grammar.rules[id.index]? = some rule)
    (hnone : m.ruleCallback? id = none) (hx : ∀ n, x ≠ .running n) (hbody : Calls m input rule.opcodes 0 o x calls) :
    Calls m input code i o x calls
  /-- the callback of a rule is asked on the way down, and decides or breaks its contract -/
  | decided {code i o id rule f c} (hop : code[i]? = some (.rnm id)) (hrule : m.grammar.rules[id.index]? = some rule)
    (hf : m.ruleCallback? id = some f) (hc : c.Of f input rule.name .undecided o)
    (hnot : ¬ c.Opens m.grammar input.size) : Calls m input code i o (c.settles m.grammar input.size) [c]
  /-- it leaves the body to be run, and that is broken off -/
  | bodyBroken {code i o id rule f c e inner} (hop : code[i]? = some (.rnm id))
    (hrule : m.grammar.rules[id.index]? = some rule) (hf : m.ruleCallback? id = some f)
    (hc : c.Of f input rule.name .undecided o) (hopens : c.Opens m.grammar input.size)
    (hbody : Calls m input rule.opcodes 0 o (.broken e) inner) : Calls m input code i o (.broken e) (c :: inner)
  /-- the body ended, and the callback is asked again, about the phrase of the body -/
  | around {code i o id rule f c c' p inner} (hop : code[i]? = some (.rnm id))
    (hrule : m.grammar.rules[id.index]? = some rule) (hf : m.ruleCallback? id = some f)
    (hc : c.Of f input rule.name .undecided o) (hopens : c.Opens m.grammar input.size)
    (hbody : Calls m input rule.opcodes 0 o (.ended p) inner) (hfits : p.Fits input.size o)
    (hc' : c'.Of f input rule.name p o) :
    Calls m input code i o (c'.settles m.grammar input.size) (c :: (inner ++ [c']))
  /-- the callback of a terminal is asked once -/
  | terminal {code i o id udt f c} (hop : code[i]? = some (.udt id)) (hudt : m.grammar.udts[id.index]? = some udt)
    (hf : m.udtCallback? id = some f) (hc : c.Of f input udt.name .undecided o) :
    Calls m input code i o (c.settles m.grammar input.size) [c]

/-- **Who is at fault** when an operator has come so far: nobody; or the last call, if the operator was broken off. -/
def Progress.Blames (g : Grammar) (size : Nat) (calls : List (Call D)) : Progress → Prop
  | .running _ | .ended _ => ∀ c ∈ calls, c.fault? g size = none
  | .broken e => ∃ before c, calls = before ++ [c] ∧ (∀ b ∈ before, b.fault? g size = none) ∧ c.fault? g size = some e

namespace Progress

variable {g : Grammar} {size : Nat} {x : Progress} {calls before : List (Call D)} {c : Call D}

theorem blames_settles (c : Call D) : (c.settles g size).Blames g size [c] := by
  unfold Call.settles
  cases h : c.fault? g size with
  | none => simpa [Blames] using h
  | some e => exact ⟨[], c, rfl, by simp, h⟩

theorem Blames.after (h : x.Blames g size calls) (hbefore : ∀ b ∈ before, b.fault? g size = none) :
    x.Blames g size (before ++ calls) := by
  cases x with
  | running n => exact List.forall_mem_append.2 ⟨hbefore, h⟩
  | ended p => exact List.forall_mem_append.2 ⟨hbefore, h⟩
  | broken e =>
    obtain ⟨former, c, rfl, hformer, hc⟩ := h
    exact ⟨before ++ former, c, (List.append_assoc _ _ _).symm, List.forall_mem_append.2 ⟨hbefore, hformer⟩, hc⟩

/-- **Only the last call can be at fault.** -/
theorem Blames.last (h : x.Blames g size calls) (hc : c ∈ calls) {e : MatchError} (he : c.fault? g size = some e) :
    x = .broken e ∧ ∃ before, calls = before ++ [c] ∧ ∀ b ∈ before, b.fault? g size = none := by
  have hnone : ¬ ∀ b ∈ calls, b.fault? g size = none := fun hall => by simp [hall c hc] at he
  cases x with
  | running n => exact absurd h hnone
  | ended p => exact absurd h hnone
  | broken e' =>
    obtain ⟨before, d, rfl, hbefore, hd⟩ := h
    rcases List.mem_append.1 hc with hmem | hmem
    · simp [hbefore c hmem] at he
    · obtain rfl := List.mem_singleton.1 hmem
      obtain rfl := Option.some.inj (hd.symm.trans he)
      exact ⟨rfl, before, rfl, hbefore⟩

end Progress

namespace Matcher.Calls

variable {m : Matcher D} {input : Array Char} {code : Array Opcode} {i o : Nat} {x : Progress} {calls : List (Call D)}

/-- **Of the calls of an operator, the last is at fault if the operator was broken off, and no other.** -/
theorem blames (h : m.Calls input code i o x calls) : x.Blames m.grammar input.size calls := by
  induction h with
  | enter => exact fun c hc => absurd hc List.not_mem_nil
  | operand _ _ _ _ ihbefore ihinner => exact List.forall_mem_append.2 ⟨ihbefore, ihinner⟩
  | leave _ _ ih => exact ih
  | operandBroken _ _ _ _ ihbefore ihinner => exact Progress.Blames.after ihinner ihbefore
  | body _ _ _ _ _ ih => exact ih
  | decided => exact Progress.blames_settles _
  | bodyBroken _ _ _ _ hopens _ ih => exact Progress.Blames.after ih (List.forall_mem_singleton.2 hopens.1)
  | around _ _ _ _ hopens _ _ _ ih =>
    exact (Progress.blames_settles _).after (List.forall_mem_cons.2 ⟨hopens.1, ih⟩)
  | terminal => exact Progress.blames_settles _

end Matcher.Calls
end SignIn
