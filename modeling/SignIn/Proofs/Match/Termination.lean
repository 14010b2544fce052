import Mathlib.Data.List.Nodup
import Mathlib.Logic.Relation
import SignIn.Proofs.Match.Nullable
import SignIn.Proofs.Match.Slices
import SignIn.Proofs.Rules.Bundled
/-!
# A match ends

A rule *left-calls* another if it can run it before anything has been read.  Where no rule left-calls itself, through
others or not, a match ends, whatever the callbacks do (`parse_terminates`).

Operators that are open at once make a chain of calls.  Along it offsets do not fall, and from a site back to itself
there would be a cycle of left-calls (`Setting.not_calls_self`), so the sites of a chain are distinct; and there are not
more sites than opcodes times offsets, which is the depth a match is given.  A match that was starved at that depth
would have left a longer chain behind (`Engine.chain_of_starved`).
-/
namespace SignIn

open Relation (ReflTransGen TransGen)

namespace Matcher

variable {D : Type}

/-- From an opcode to an operand that may be run where the opcode is. -/
def LeftStep (m : Matcher D) (code : Array Opcode) (i c : Nat) : Prop :=
  ∃ op, code[i]? = some op ∧ m.LeftOperand code op c

/-- **A rule left-calls another** if a reference to it is reached from the root without passing an operand of a sequence
that is not nullable. -/
def LeftCalls (m : Matcher D) (a b : RuleId) : Prop :=
  ∃ rule i, m.grammar.rules[a.index]? = some rule ∧ ReflTransGen (m.LeftStep rule.opcodes) 0 i ∧
    rule.opcodes[i]? = some (.rnm b)

/-- **No rule left-calls itself,** be it through others. -/
def LeftAcyclic (m : Matcher D) : Prop := ∀ id, ¬ TransGen m.LeftCalls id id

/-- Behind an operand of a sequence that is not nullable, nothing is run where the sequence begins. -/
theorem LeftOperand.eq_of_cat {m : Matcher D} {code : Array Opcode} {a c : Nat} {rest : List Nat}
    (h : m.LeftOperand code (.cat (a :: rest)) c) (ha : ¬ m.Nullable code a) : c = a := by
  generalize hop : Opcode.cat (a :: rest) = op at h
  cases h with
  | @cat done c rest' hdone =>
    cases done with
    | nil => exact ((List.cons.inj (Opcode.cat.inj hop)).1).symm
    | cons b done =>
      obtain ⟨rfl, -⟩ := List.cons.inj (Opcode.cat.inj hop)
      exact absurd (hdone a List.mem_cons_self) ha
  | _ => cases hop

theorem mem_children_of_left {m : Matcher D} {code : Array Opcode} {op : Opcode} {c : Nat}
    (h : m.LeftOperand code op c) : c ∈ op.children := by
  cases h <;> simp_all [Opcode.children]

end Matcher

/-! ## Chains of calls -/

namespace Setting

variable {D σ : Type} {s : Setting D σ} {x y z : Site}

/-- **Between two sites at one offset:** further down in the same rule, or by left-calls into another, and there down from
the root. -/
inductive LeftPath (m : Matcher D) (code : Array Opcode) (i : Nat) : Array Opcode → Nat → Prop
  | within {j} (lt : i < j) (steps : ReflTransGen (m.LeftStep code) i j) : LeftPath m code i code j
  | across {k a b rule j} (steps : ReflTransGen (m.LeftStep code) i k) (here : code[k]? = some (.rnm a))
    (calls : ReflTransGen m.LeftCalls a b) (found : m.grammar.rules[b.index]? = some rule)
    (down : ReflTransGen (m.LeftStep rule.opcodes) 0 j) : LeftPath m code i rule.opcodes j

/-- One call more at the same offset. -/
theorem LeftPath.step {code code' : Array Opcode} {i j o : Nat} (h : LeftPath s.matcher code i code' j)
    (hc : s.matcher.grammar.Code code) (hcall : s.Calls ⟨code', j, o⟩ z) (ho : z.offset = o) :
    LeftPath s.matcher code i z.code z.index := by
  cases hcall with
  | operand here hmem le within left =>
    have hstep : s.matcher.LeftStep code' j _ := ⟨_, here, left ho⟩
    cases h with
    | within lt steps => exact .within (Nat.lt_trans lt ((hc.within _ _ here).children _ hmem).1) (steps.tail hstep)
    | across steps here' calls found down => exact .across steps here' calls found (down.tail hstep)
  | rule here found =>
    cases h with
    | within lt steps => exact .across steps here .refl found .refl
    | across steps here' calls found' down => exact .across steps here' (calls.tail ⟨_, _, found', down, here⟩) found .refl

/-- **Along calls offsets do not fall,** and where they stay there is a path of left-calls. -/
theorem path_of_calls (hc : s.matcher.grammar.Code x.code) (h : TransGen s.Calls x y) :
    x.offset ≤ y.offset ∧ (y.offset = x.offset → LeftPath s.matcher x.code x.index y.code y.index) := by
  have hle : ∀ {y z}, s.Calls y z → y.offset ≤ z.offset := by
    intro y z hcall
    cases hcall with
    | operand here hmem le within left => exact le
    | rule here found => exact Nat.le_refl _
  induction h with
  | single hcall =>
    refine ⟨hle hcall, fun ho => ?_⟩
    cases hcall with
    | operand here hmem le within left =>
      exact .within ((hc.within _ _ here).children _ hmem).1 (.single ⟨_, here, left ho⟩)
    | rule here found => exact .across .refl here .refl found .refl
  | tail _ hcall ih =>
    have := hle hcall
    exact ⟨Nat.le_trans ih.1 this, fun ho => (ih.2 (by omega)).step hc hcall (by omega)⟩

/-- **No site calls itself,** where no rule left-calls itself. -/
theorem not_calls_self (hacyclic : s.matcher.LeftAcyclic) (hc : s.matcher.grammar.Code x.code) : ¬ TransGen s.Calls x x := by
  intro h
  obtain ⟨code, i, o⟩ := x
  have hpath := (path_of_calls hc h).2 rfl
  dsimp only at hpath
  generalize hcode : code = code' at hpath
  cases hpath with
  | within lt steps => exact Nat.lt_irrefl _ lt
  | across steps here calls found down =>
    -- the rule that the path ends in is the one that it begins in
    subst hcode
    exact hacyclic _ (TransGen.head' ⟨_, _, found, down.trans steps, here⟩ calls)

end Setting

/-! ## The sites of a match -/

namespace Grammar

/-- The codes that a match from a rule runs: the reference to the rule, and the opcodes of all rules. -/
def codes (g : Grammar) (start : RuleId) : List (Array Opcode) := #[.rnm start] :: g.rules.toList.map Rule.opcodes

/-- **All sites that there are** in an input of a size. -/
def sites (g : Grammar) (start : RuleId) (size : Nat) : List Site :=
  (g.codes start).flatMap fun code => (List.range code.size).flatMap fun i => (List.range (size + 1)).map fun o => ⟨code, i, o⟩

variable {g : Grammar} {start : RuleId}

theorem length_sites (size : Nat) : (g.sites start size).length = (g.opcodeCount + 1) * (size + 1) := by
  have hcode : ∀ code : Array Opcode, ((List.range code.size).flatMap fun i =>
      (List.range (size + 1)).map fun o => (⟨code, i, o⟩ : Site)).length = code.size * (size + 1) := by
    intro code
    rw [List.length_flatMap, List.map_congr_left fun i _ => (List.length_map _).trans List.length_range, List.map_const',
      List.sum_replicate_nat, List.length_range]
  have hsum : ((g.codes start).map Array.size).sum = g.opcodeCount + 1 := by
    rw [codes, List.map_cons, List.sum_cons, List.map_map, Nat.add_comm]
    rfl
  rw [sites, List.length_flatMap, List.map_congr_left fun code _ => hcode code, ← hsum]
  generalize g.codes start = codes
  induction codes with
  | nil => rw [List.map_nil, List.sum_nil, List.map_nil, List.sum_nil, Nat.zero_mul]
  | cons code codes ih => rw [List.map_cons, List.sum_cons, ih, List.map_cons, List.sum_cons, Nat.add_mul]

theorem code_of_mem (hg : g.WellFormed) (hstart : start.index < g.rules.size) {code : Array Opcode}
    (h : code ∈ g.codes start) : g.Code code := by
  rcases List.mem_cons.1 h with rfl | h
  · exact code_rnm hstart
  · obtain ⟨rule, hrule, rfl⟩ := List.mem_map.1 h
    obtain ⟨i, hi⟩ := List.getElem?_of_mem hrule
    exact hg i rule (by rwa [Array.getElem?_toList] at hi)

theorem proper_of_mem (hp : g.Proper) {code : Array Opcode} (h : code ∈ g.codes start) {i : Nat} {op : Opcode}
    (hop : code[i]? = some op) : op.Proper := by
  rcases List.mem_cons.1 h with rfl | h
  · have hi := (Array.getElem?_eq_some_iff.1 hop).1
    obtain rfl : i = 0 := by simpa using hi
    obtain rfl : Opcode.rnm start = op := by simpa using hop
    exact ⟨fun _ ht => (by cases ht), fun _ _ _ hc => (by cases hc)⟩
  · obtain ⟨rule, hrule, rfl⟩ := List.mem_map.1 h
    obtain ⟨id, hid⟩ := List.getElem?_of_mem hrule
    exact hp id rule (by rwa [Array.getElem?_toList] at hid) i op hop

end Grammar

namespace Setting

variable {D σ : Type} {s : Setting D σ} {start : RuleId} {x y : Site}

/-- **A site of a match from a rule.** -/
structure Holds (s : Setting D σ) (start : RuleId) (x : Site) : Prop where
  code : x.code ∈ s.matcher.grammar.codes start
  index : x.index < x.code.size
  offset : x.offset ≤ s.input.size

theorem Holds.mem_sites (h : s.Holds start x) : x ∈ s.matcher.grammar.sites start s.input.size :=
  List.mem_flatMap.2 ⟨x.code, h.code, List.mem_flatMap.2 ⟨x.index, List.mem_range.2 h.index,
    List.mem_map.2 ⟨x.offset, List.mem_range.2 (Nat.lt_succ_of_le h.offset), rfl⟩⟩⟩

/-- What a site calls is a site. -/
theorem Holds.calls (hg : s.matcher.grammar.WellFormed) (hstart : start.index < s.matcher.grammar.rules.size)
    (h : s.Holds start x) (hcall : s.Calls x y) : s.Holds start y := by
  cases hcall with
  | operand here hmem le within left =>
    exact ⟨h.code, (((Grammar.code_of_mem hg hstart h.code).within _ _ here).children _ hmem).2, within⟩
  | rule here found =>
    have hrule := Array.mem_toList_iff.2 (Array.mem_of_getElem? found)
    exact ⟨List.mem_cons_of_mem _ (List.mem_map_of_mem hrule), (hg _ _ found).root, h.offset⟩

end Setting

namespace Engine

open Outcome (Agree)

variable {D σ : Type} {s : Setting D σ} {start : RuleId} {x : Site}

/-- **What the engine makes of a site is settled there.** -/
theorem execute_settles (hg : s.matcher.grammar.WellFormed) (hp : s.matcher.grammar.Proper)
    (hstart : start.index < s.matcher.grammar.rules.size) :
    ∀ {depth : Nat} {x : Site}, s.Holds start x → SettlesAt s True (execute s depth) x
  | 0, _, _ => fun _ => trivial
  | _ + 1, ⟨_, _, _⟩, hx =>
    step_settles (Grammar.code_of_mem hg hstart hx.code) (Array.getElem?_eq_getElem hx.index)
      (Grammar.proper_of_mem hp hx.code (Array.getElem?_eq_getElem hx.index)) hx.offset
      fun _ hy => execute_settles hg hp hstart (hx.calls hg hstart hy)

/-- **What is starved was starved in something it called.** -/
theorem calls_of_starved (hg : s.matcher.grammar.WellFormed) (hp : s.matcher.grammar.Proper)
    (hstart : start.index < s.matcher.grammar.rules.size) (hx : s.Holds start x) {depth : Nat} {r : Run D σ}
    (h : execute s (depth + 1) x.code x.index x.offset r = .starved) :
    ∃ y r', s.Calls x y ∧ execute s depth y.code y.index y.offset r' = .starved := by
  have hbelow : ∀ y, s.Calls x y →
      SettlesAt s (∃ y r', s.Calls x y ∧ execute s depth y.code y.index y.offset r' = .starved) (execute s depth) y := by
    intro y hy r'
    have hsettled : SettlesAt s True (execute s depth) y := execute_settles hg hp hstart (hx.calls hg hstart hy)
    specialize hsettled r'
    cases hout : execute s depth y.code y.index y.offset r' with
    | starved => exact ⟨y, r', hy, hout⟩
    | _ =>
      rw [hout] at hsettled
      exact hsettled
  have hstep := step_settles (Grammar.code_of_mem hg hstart hx.code) (Array.getElem?_eq_getElem hx.index)
    (Grammar.proper_of_mem hp hx.code (Array.getElem?_eq_getElem hx.index)) hx.offset hbelow r
  change (execute s (depth + 1) x.code x.index x.offset r).Yields _ _ _ at hstep
  rwa [h] at hstep

/-- **A match that is starved leaves a chain of calls behind,** as long as it was deep. -/
theorem chain_of_starved (hg : s.matcher.grammar.WellFormed) (hp : s.matcher.grammar.Proper)
    (hstart : start.index < s.matcher.grammar.rules.size) :
    ∀ {depth : Nat} {x : Site} {r : Run D σ}, s.Holds start x → execute s depth x.code x.index x.offset r = .starved →
      ∃ chain : List Site, chain.length = depth ∧ List.IsChain s.Calls (x :: chain) ∧ ∀ y ∈ chain, s.Holds start y
  | 0, x, _, _, _ => ⟨[], rfl, .singleton x, by simp⟩
  | depth + 1, x, r, hx, h => by
    obtain ⟨y, r', hy, hstarved⟩ := calls_of_starved hg hp hstart hx h
    have hold := hx.calls hg hstart hy
    obtain ⟨chain, hlen, hchain, hall⟩ := chain_of_starved hg hp hstart hold hstarved
    exact ⟨y :: chain, by rw [List.length_cons, hlen], List.isChain_cons_cons.2 ⟨hy, hchain⟩,
      List.forall_mem_cons.2 ⟨hold, hall⟩⟩

/-- **A match is not starved at a depth beyond the number of its sites.** -/
theorem execute_ne_starved (hg : s.matcher.grammar.WellFormed) (hp : s.matcher.grammar.Proper)
    (hacyclic : s.matcher.LeftAcyclic) (hstart : start.index < s.matcher.grammar.rules.size) {depth : Nat}
    (hdepth : s.matcher.depthFor s.input ≤ depth) (r : Run D σ) : execute s depth #[.rnm start] 0 0 r ≠ .starved := by
  intro h
  have hfirst : s.Holds start ⟨#[.rnm start], 0, 0⟩ := ⟨List.mem_cons_self, Nat.one_pos, Nat.zero_le _⟩
  obtain ⟨chain, hlen, hchain, hall⟩ := chain_of_starved hg hp hstart hfirst h
  have hall : ∀ y ∈ ⟨#[.rnm start], 0, 0⟩ :: chain, s.Holds start y := List.forall_mem_cons.2 ⟨hfirst, hall⟩
  have hpath := List.isChain_iff_pairwise.1 (hchain.imp fun _ _ hcall => TransGen.single hcall)
  have hnodup : (⟨#[.rnm start], 0, 0⟩ :: chain).Nodup := by
    refine hpath.imp_of_mem fun {a b} ha _ hab => ?_
    rintro rfl
    exact Setting.not_calls_self hacyclic (Grammar.code_of_mem hg hstart (hall _ ha).code) hab
  have hle := hnodup.length_le_of_subset fun y hy => (hall y hy).mem_sites
  rw [List.length_cons, hlen, Grammar.length_sites, Nat.mul_comm] at hle
  rw [Matcher.depthFor] at hdepth
  omega

/-! ## Bounds that do not matter -/

/-- What has come out at one depth comes out at the next. -/
theorem execute_le_succ (hg : s.matcher.grammar.WellFormed) : ∀ (depth : Nat) (code : Array Opcode) (i o : Nat) (r : Run D σ),
    s.matcher.grammar.Code code → i < code.size → o ≤ s.input.size →
    Agree True (Phrase.Fits s.input.size o) Eq Eq (execute s depth code i o r) (execute s (depth + 1) code i o r)
  | 0, _, _, _, _, _, _, _ => .inl trivial
  | depth + 1, _, _, _, _, hc, hi, ho => by
    have hsteady : Steady (D := D) (σ := σ) Eq Eq :=
      { raise := fun h => by rw [h], lower := fun h => by rw [h], data := fun h => by rw [h]
        lookahead := fun h => by rw [h], answer := fun h _ => by rw [h], broken := id }
    refine step_agree hsteady rfl rfl hg (fun code i o r t hc hi ho hr => ?_) hc (Array.getElem?_eq_getElem hi) ho rfl
      fun p r t _ hr => by rw [hr]
    rw [hr]
    exact execute_le_succ hg depth code i o t hc hi ho

/-- **A greater depth changes nothing** once an operator is not starved. -/
theorem execute_of_le (hg : s.matcher.grammar.WellFormed) {code : Array Opcode} (hc : s.matcher.grammar.Code code)
    {i o : Nat} (hi : i < code.size) (ho : o ≤ s.input.size) {depth depth' : Nat} (hle : depth ≤ depth') {r : Run D σ}
    (h : execute s depth code i o r ≠ .starved) : execute s depth' code i o r = execute s depth code i o r := by
  induction hle with
  | refl => rfl
  | @step k _ ih =>
    have hagree := execute_le_succ hg k code i o r hc hi ho
    rw [ih] at hagree
    generalize execute s depth code i o r = out at h hagree ⊢
    cases out <;> cases hk : execute s (k + 1) code i o r <;> rw [hk] at hagree <;> simp_all [Agree]

/-- **The budget of a repetition changes nothing:** every round that goes on has read something. -/
theorem repetition_budget {ρ : Type} {counter : Counter} {eval : Nat → ρ → Outcome ρ} {min available : Nat}
    {max : Option Nat} (h : ∀ n r p r', n < available → eval n r = .ended p r' → p.state = .matched → 0 < p.length) (extra : Nat) :
    ∀ budget count n r, available ≤ n + budget →
      repetition counter eval min max available (budget + extra) count n r =
        repetition counter eval min max available budget count n r
  | 0, count, n, r, hle => by
    cases extra with
    | zero => rfl
    | succ extra =>
      rw [Nat.zero_add, repetition, repetition, if_pos (by omega)]
  | budget + 1, count, n, r, hle => by
    rw [Nat.add_right_comm, repetition, repetition]
    by_cases ha : available ≤ n
    · rw [if_pos ha, if_pos ha]
    rw [if_neg ha, if_neg ha]
    cases hout : eval n r with
    | ended p r' =>
      dsimp only [Outcome.andThen]
      cases hs : p.state with
      | matched =>
        have := h n r p r' (by omega) hout hs
        dsimp only
        rw [repetition_budget h extra budget _ _ r' (by omega)]
      | _ => rfl
    | _ => rfl

/-- **The rounds of a repetition are never cut short.** -/
theorem repetition_uncut (hg : s.matcher.grammar.WellFormed) (hp : s.matcher.grammar.Proper)
    (hstart : start.index < s.matcher.grammar.rules.size) {depth child : Nat} (hx : s.Holds start ⟨x.code, child, x.offset⟩)
    (counter : Counter) (min : Nat) (max : Option Nat) (extra : Nat) (r : Run D σ) :
    let available := s.input.size - x.offset
    let eval := fun n => execute s depth x.code child (x.offset + n)
    repetition counter eval min max available (available + extra) 0 0 r =
      repetition counter eval min max available available 0 0 r := by
  refine repetition_budget (fun n r p r' hn hout hs => ?_) extra _ 0 0 r (by omega)
  have hy : s.Holds start ⟨x.code, child, x.offset + n⟩ := ⟨hx.code, hx.index, by dsimp only; omega⟩
  have hsettled : SettlesAt s True (execute s depth) ⟨x.code, child, x.offset + n⟩ := execute_settles hg hp hstart hy
  specialize hsettled r
  dsimp only at hsettled
  rw [hout] at hsettled
  exact hsettled.1.1.2.2 hs

end Engine

/-! ## Grammars without recursion -/

namespace Grammar

/-- How deep the references of a rule are, those below being opened to a number of levels. -/
def height (g : Grammar) : Nat → RuleId → Nat
  | 0, _ => 0
  | n + 1, id =>
    match g.rules[id.index]? with
    | none => 0
    | some rule => (rule.opcodes.toList.map fun op =>
        match op with
        | .rnm b => g.height n b + 1
        | _ => 0).foldl Nat.max 0

/-- **Every reference is to a rule of less height.** -/
def descends (g : Grammar) (n : Nat) : Bool :=
  g.rules.toList.zipIdx.all fun r => r.1.opcodes.toList.all fun op =>
    match op with
    | .rnm b => decide (g.height n b < g.height n ⟨r.2⟩)
    | _ => true

theorem height_lt_of_descends {g : Grammar} {n : Nat} (h : g.descends n = true) {a b : RuleId} {rule : Rule} {i : Nat}
    (hrule : g.rules[a.index]? = some rule) (hop : rule.opcodes[i]? = some (.rnm b)) : g.height n b < g.height n a := by
  have hmem : (rule, a.index) ∈ g.rules.toList.zipIdx := by
    rw [List.mem_zipIdx_iff_getElem?, Array.getElem?_toList]
    exact hrule
  have hall := List.all_eq_true.1 (List.all_eq_true.1 h _ hmem) _ (Array.mem_toList_iff.2 (Array.mem_of_getElem? hop))
  simpa using hall

end Grammar

/-- **Rules whose references descend are not left-recursive,** whatever is bound to them. -/
theorem Matcher.leftAcyclic_of_descends {D : Type} {m : Matcher D} {n : Nat} (h : m.grammar.descends n = true) :
    m.LeftAcyclic := by
  have hlt : ∀ {a b}, TransGen m.LeftCalls a b → m.grammar.height n b < m.grammar.height n a := by
    intro a b hcalls
    induction hcalls with
    | single hcall =>
      obtain ⟨rule, i, hrule, -, hop⟩ := hcall
      exact Grammar.height_lt_of_descends h hrule hop
    | tail _ hcall ih =>
      obtain ⟨rule, i, hrule, -, hop⟩ := hcall
      exact Nat.lt_trans (Grammar.height_lt_of_descends h hrule hop) ih
  exact fun id hcycle => Nat.lt_irrefl _ (hlt hcycle)

theorem bundledGrammar_descends : bundledGrammar.descends bundledDepth = true := by decide +kernel

theorem leftAcyclic_bundled {D : Type} {m : Matcher D} (hm : m.grammar = bundledGrammar) : m.LeftAcyclic :=
  Matcher.leftAcyclic_of_descends (n := bundledDepth) (by rw [hm]; exact bundledGrammar_descends)

/-! ## Parsing ends -/

namespace Matcher

variable {D σ : Type} {m : Matcher D} {watch : Watcher σ} {input : Array Char} {id : RuleId}

/-- A match from a rule ends with a report, or with an error of a callback or a terminal. -/
theorem proper_of_parseFrom (hg : m.grammar.WellFormed) (hp : m.grammar.Proper) (hacyclic : m.LeftAcyclic)
    (hid : id.index < m.grammar.rules.size) {data : D} {seen : σ} {e : MatchError}
    (h : (m.parseFrom watch (m.depthFor input) id input data seen).result = .error e) : e.Proper := by
  have hfirst : (⟨m, watch, input⟩ : Setting D σ).Holds id ⟨#[.rnm id], 0, 0⟩ :=
    ⟨List.mem_cons_self, Nat.one_pos, Nat.zero_le _⟩
  have hsettles : Engine.SettlesAt _ True (Engine.execute _ (m.depthFor input)) _ := Engine.execute_settles hg hp hid hfirst
  specialize hsettles (firstRun watch input data seen)
  have hne := Engine.execute_ne_starved (s := ⟨m, watch, input⟩) hg hp hacyclic hid (Nat.le_refl _)
    (firstRun watch input data seen)
  simp only [parseFrom] at h
  split at h
  · cases h
  · rename_i hout
    cases h
    rw [hout] at hsettles
    exact hsettles
  · rename_i hout
    rw [hout] at hsettles
    exact hsettles.elim
  · rename_i hout
    exact absurd hout hne

/-- From the depth on that a match is given, the depth does not matter. -/
theorem parseFrom_of_depthFor_le (hg : m.grammar.WellFormed) (hp : m.grammar.Proper) (hacyclic : m.LeftAcyclic)
    (hid : id.index < m.grammar.rules.size) {depth : Nat} (hdepth : m.depthFor input ≤ depth) (data : D) (seen : σ) :
    m.parseFrom watch depth id input data seen = m.parseFrom watch (m.depthFor input) id input data seen := by
  have hne := Engine.execute_ne_starved (s := ⟨m, watch, input⟩) hg hp hacyclic hid (Nat.le_refl _)
    (firstRun watch input data seen)
  simp only [parseFrom]
  rw [Engine.execute_of_le (s := ⟨m, watch, input⟩) hg (Grammar.code_rnm hid) Nat.one_pos (Nat.zero_le _) hdepth hne]

end Matcher

/-- **Parsing ends for every grammar without left recursion,** whatever the callbacks do: with a report, or with an error
that is a callback's or a terminal's.  Neither the bound on the depth nor that on the rounds of a repetition decides
anything: a greater one gives the same.  The bundled grammar is not left-recursive, whatever is bound to its rules. -/
theorem parse_terminates :
    (∀ {D σ : Type} {rules : List (Text × List Opcode)} {udts : List (Text × Bool)} {m : Matcher D},
      Grammar.ofTables rules udts = .ok m.grammar → m.LeftAcyclic →
      ∀ (watch : Watcher σ) (start : Text) (input : Array Char) (data : D) (seen : σ),
      (∀ e, (m.parseWith watch start input data seen).result = .error e → e.Proper) ∧
      ∀ id, m.grammar.ruleId? start = some id →
        (∀ depth, m.depthFor input ≤ depth →
          m.parseFrom watch depth id input data seen = m.parseFrom watch (m.depthFor input) id input data seen) ∧
        ∀ (x : Site) (depth : Nat), (⟨m, watch, input⟩ : Setting D σ).Holds id x → ∀ counter min max extra r,
          let available := input.size - x.offset
          let eval := fun n => Engine.execute ⟨m, watch, input⟩ depth x.code x.index (x.offset + n)
          Engine.repetition counter eval min max available (available + extra) 0 0 r =
            Engine.repetition counter eval min max available available 0 0 r) ∧
    (∃ rules udts, Grammar.ofTables rules udts = .ok bundledGrammar) ∧
    (messageMatcher.grammar = bundledGrammar ∧ fieldMatcher.grammar = bundledGrammar) ∧
    ∀ {D : Type} {m : Matcher D}, m.grammar = bundledGrammar → m.LeftAcyclic := by
  refine ⟨fun {D σ rules udts m} htables hacyclic watch start input data seen => ?_, ?_,
    ⟨messageMatcher_bundles.1, fieldMatcher_bundles.1⟩, leftAcyclic_bundled⟩
  · have hg := Grammar.wellFormed_ofTables htables
    have hp := Grammar.proper_ofTables htables
    refine ⟨fun e he => ?_, fun id hid => ⟨fun depth hdepth => ?_, fun x depth hx counter min max extra r => ?_⟩⟩
    · unfold Matcher.parseWith at he
      split at he
      · cases he
        exact ⟨by simp, by simp⟩
      rename_i id hid
      split at he
      · cases he
        exact ⟨by simp, by simp⟩
      exact Matcher.proper_of_parseFrom hg hp hacyclic (Grammar.ruleId?_lt hid) he
    · exact Matcher.parseFrom_of_depthFor_le hg hp hacyclic (Grammar.ruleId?_lt hid) hdepth data seen
    · exact Engine.repetition_uncut hg hp (Grammar.ruleId?_lt hid) hx counter min max extra r
  · obtain ⟨-, tables, -, htables⟩ := Grammar.ofExprs_eq_ok bundledGrammar_eq
    exact ⟨_, _, htables⟩

/-- The rule of nested brackets around a character. -/
def nestRule : Rule := ⟨"nest", #[.alt [1, 5], .cat [2, 3, 4], .tbs "(", .rnm ⟨0⟩, .tbs ")", .tbs "x"]⟩

/-- A matcher whose rule calls itself, behind a bracket only, and whose callback overrides a failed body. -/
def nestMatcher : Matcher Nat where
  grammar := ⟨#[nestRule], #[]⟩
  onRule := #[some fun p _ _ d => (if p.state = .noMatch then .empty else p, d + 1)]
  onUdt := #[]

theorem not_leftCalls_nest {a b : RuleId} : ¬ nestMatcher.LeftCalls a b := by
  rintro ⟨rule, i, hrule, hpath, hop⟩
  obtain rfl : rule = nestRule := by simpa [nestMatcher] using Array.mem_of_getElem? hrule
  -- a bracket is not nullable, so what stands behind it is not reached
  have hreach : i = 0 ∨ i = 1 ∨ i = 2 ∨ i = 5 := by
    clear hop
    induction hpath with
    | refl => exact .inl rfl
    | @tail _ c _ hstep ih =>
      obtain ⟨op, hop, hleft⟩ := hstep
      rcases ih with rfl | rfl | rfl | rfl <;> obtain rfl := Option.some.inj hop
      · have : c ∈ [1, 5] := Matcher.mem_children_of_left hleft
        simp only [List.mem_cons, List.not_mem_nil, or_false] at this
        omega
      · have : ¬ nestMatcher.Nullable nestRule.opcodes 2 := fun h => by cases h <;> simp_all [nestRule]
        exact .inr (.inr (.inl (hleft.eq_of_cat this)))
      all_goals cases hleft
  rcases hreach with rfl | rfl | rfl | rfl <;> cases hop

theorem leftAcyclic_nest : nestMatcher.LeftAcyclic := by
  intro id hcycle
  obtain ⟨b, hcall, -⟩ := TransGen.head'_iff.1 hcycle
  exact not_leftCalls_nest hcall

theorem parse_terminates_nest :
    Grammar.ofTables [(nestRule.name, nestRule.opcodes.toList)] [] = .ok nestMatcher.grammar ∧
    nestMatcher.LeftAcyclic ∧
    ∀ e, (nestMatcher.parseWith Watcher.silent "nest" #['(', 'x', ')'] 0 ()).result = .error e → e.Proper :=
  have hg : Grammar.ofTables [(nestRule.name, nestRule.opcodes.toList)] [] = .ok nestMatcher.grammar := rfl
  ⟨hg, leftAcyclic_nest, (parse_terminates.1 hg leftAcyclic_nest Watcher.silent "nest" #['(', 'x', ')'] 0 ()).1⟩

end SignIn
