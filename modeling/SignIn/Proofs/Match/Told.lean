import SignIn.Match.Tree
import SignIn.Proofs.Match.Callbacks
import SignIn.Proofs.Match.Nullable
/-!
# What a match tells

The events of a match are those of a tree: an operator that was told of, with the operators below it that were.
`Told` is that tree and `Told.events` reads its events off.  Whatever operator is run, at any place of any run, it
tells of itself and of what it runs if no lookahead is open, of nothing if one is, and leaves the counters as they were
(`Engine.execute_tells`).  A match that is broken off has told the events of a tree up to some point (`Told.Cut`).

What is true of every node of the tree, next to what its operator does, is its law (`Told.Lawful`): an operator of
lookahead has nothing below it, and where callbacks of rules only reject, the successes below a success are laid one
behind the other within it.
-/
namespace SignIn

/-- **An operator that was told of,** with its phrase, and with those below it. -/
inductive Told where
  | mk (op : Opcode) (offset : Nat) (phrase : Phrase) (below : List Told)

namespace Told

def op : Told → Opcode
  | .mk op _ _ _ => op

def offset : Told → Nat
  | .mk _ o _ _ => o

def phrase : Told → Phrase
  | .mk _ _ p _ => p

mutual

/-- **The events of a tree:** the operator is entered, those below it are told of, and it is left. -/
def events : Told → List Event
  | .mk op o p below => .down op o :: (eventsOfAll below ++ [.up op p o])

/-- The events of trees one after the other. -/
def eventsOfAll : List Told → List Event
  | [] => []
  | t :: ts => t.events ++ eventsOfAll ts

end

theorem eventsOfAll_append : ∀ ts us : List Told, eventsOfAll (ts ++ us) = eventsOfAll ts ++ eventsOfAll us
  | [], _ => rfl
  | t :: ts, us => by rw [List.cons_append, eventsOfAll, eventsOfAll, eventsOfAll_append ts us, List.append_assoc]

theorem eventsOfAll_singleton (t : Told) : eventsOfAll [t] = t.events := by rw [eventsOfAll, eventsOfAll, List.append_nil]

/-- **Events that were cut off:** those of some trees, and then those of an operator that was not left. -/
inductive Cut : List Event → Prop
  | between (ts : List Told) : Cut (eventsOfAll ts)
  | within {es : List Event} (ts : List Told) (op : Opcode) (o : Nat) (rest : Cut es) :
    Cut (eventsOfAll ts ++ .down op o :: es)

theorem Cut.after {es : List Event} (h : Cut es) (ts : List Told) : Cut (eventsOfAll ts ++ es) := by
  cases h with
  | between us =>
    rw [← eventsOfAll_append]
    exact .between _
  | within us op o rest =>
    rw [← List.append_assoc, ← eventsOfAll_append]
    exact .within _ op o rest

/-- **Trees laid in a stretch of the input,** one behind the other; where one that failed lies does not matter. -/
inductive Laid : Nat → Nat → List Told → Prop
  | nil {a b : Nat} (le : a ≤ b) : Laid a b []
  | failed {a b : Nat} {t : Told} {ts : List Told} (failed : t.phrase.state = .noMatch) (rest : Laid a b ts) :
    Laid a b (t :: ts)
  | cons {a b : Nat} {t : Told} {ts : List Told} (le : a ≤ t.offset) (rest : Laid (t.offset + t.phrase.length) b ts) :
    Laid a b (t :: ts)

/-- What is laid up to where a tree begins is laid, with the tree, up to where it ends. -/
theorem Laid.snoc {a b : Nat} {t : Told} {ts : List Told} (h : Laid a b ts) (hb : b = t.offset) :
    Laid a (t.offset + t.phrase.length) (ts ++ [t]) := by
  induction h with
  | nil le => exact .cons (hb ▸ le) (.nil (Nat.le_refl _))
  | failed hs _ ih => exact .failed hs (ih hb)
  | cons le _ ih => exact .cons le (ih hb)

end Told

/-! ## The law of a node -/

/-- **A callback that only rejects** leaves every other phrase as it is. -/
def Callback.OnlyRejects {D : Type} (f : Callback D) : Prop :=
  ∀ p input o d, (f p input o d).1 = p ∨ (f p input o d).1.state = .noMatch

/-- **No callback of a rule changes a phrase, except by rejecting it.** -/
def Matcher.OnlyRejects {D : Type} (m : Matcher D) : Prop := ∀ id f, m.ruleCallback? id = some f → f.OnlyRejects

namespace Told

variable {D : Type} {m : Matcher D}

/-- **The law of a node:** its operator refers to what there is; below a lookahead nobody is told of anything; and a
success covers the successes below it, if callbacks only reject. -/
structure Lawful (m : Matcher D) (op : Opcode) (o : Nat) (p : Phrase) (below : List Told) : Prop where
  known : ∀ symbol, op.symbol? = some symbol → (Selection.everything m.grammar).has symbol = true
  silent : ∀ c, op = .and c ∨ op = .not c → below = []
  laid : m.OnlyRejects → p.state ≠ .noMatch → Laid o (o + p.length) below

/-- **A tree whose nodes are lawful.** -/
inductive Sound (m : Matcher D) : Told → Prop
  | mk {op o p ts} (here : Lawful m op o p ts) (below : ∀ t ∈ ts, Sound m t) : Sound m (.mk op o p ts)

end Told

/-! ## The engine -/

/-- **A run that went on and told of some events,** if no lookahead was open; its counters are where they were. -/
structure Run.Tells {D σ : Type} (watch : Watcher σ) (r r' : Run D σ) (es : List Event) : Prop where
  lookahead : r'.lookahead = r.lookahead
  depth : r'.depth = r.depth
  seen : r'.seen = if r.lookahead = 0 then es.foldl watch r.seen else r.seen

/-- **A run that was broken off,** having told of a part of the events. -/
def Run.TellsPart {D σ : Type} (watch : Watcher σ) (r r' : Run D σ) : Prop :=
  ∃ es, Told.Cut es ∧ r'.seen = if r.lookahead = 0 then es.foldl watch r.seen else r.seen

namespace Run

variable {D σ : Type} {watch : Watcher σ} {r r' r'' : Run D σ} {es fs : List Event}

theorem Tells.refl (watch : Watcher σ) (r : Run D σ) : r.Tells watch r [] := ⟨rfl, rfl, by simp⟩

theorem Tells.trans (h : r.Tells watch r' es) (h' : r'.Tells watch r'' fs) : r.Tells watch r'' (es ++ fs) where
  lookahead := h'.lookahead.trans h.lookahead
  depth := h'.depth.trans h.depth
  seen := by
    rw [h'.seen, h.lookahead, h.seen]
    split
    · rw [List.foldl_append]
    · rfl

theorem TellsPart.after {ts : List Told} (h : r.Tells watch r' (Told.eventsOfAll ts)) (h' : r'.TellsPart watch r'') :
    r.TellsPart watch r'' := by
  obtain ⟨fs, hcut, hseen⟩ := h'
  refine ⟨_, hcut.after ts, ?_⟩
  rw [hseen, h.lookahead, h.seen]
  split
  · rw [List.foldl_append]
  · rfl

theorem TellsPart.after_nothing (h : r.Tells watch r' []) (h' : r'.TellsPart watch r'') : r.TellsPart watch r'' :=
  h'.after (show r.Tells watch r' (Told.eventsOfAll []) from h)

end Run

namespace Engine

variable {D σ : Type} {s : Setting D σ} {lax : Prop} {eval : Evaluator D σ} {code : Array Opcode} {i o : Nat}

/-- **The run has told of a node:** its operator, its offset and its phrase, and a lawful tree below them. -/
def TellsNode (s : Setting D σ) (op : Opcode) (o : Nat) (r : Run D σ) (p : Phrase) (r' : Run D σ) : Prop :=
  p.Fits s.input.size o ∧
    ∃ below, (Told.mk op o p below).Sound s.matcher ∧ r.Tells s.watch r' (Told.mk op o p below).events

/-- **The run has told of what is below a node.** -/
def TellsBelow (s : Setting D σ) (op : Opcode) (o : Nat) (r : Run D σ) (p : Phrase) (r' : Run D σ) : Prop :=
  p.Fits s.input.size o ∧ ∃ ts, (∀ t ∈ ts, t.Sound s.matcher) ∧ Told.Lawful s.matcher op o p ts ∧
    r.Tells s.watch r' (Told.eventsOfAll ts)

/-- **The run has told of trees laid one behind the other,** over a number of characters. -/
def TellsLaid (s : Setting D σ) (o : Nat) (r : Run D σ) (n : Nat) (r' : Run D σ) : Prop :=
  o + n ≤ s.input.size ∧ ∃ ts, (∀ t ∈ ts, t.Sound s.matcher) ∧ Told.Laid o (o + n) ts ∧
    r.Tells s.watch r' (Told.eventsOfAll ts)

/-- What an evaluator makes of an operator, it tells. -/
def TellsAt (s : Setting D σ) (lax : Prop) (eval : Evaluator D σ) (code : Array Opcode) : Prop :=
  ∀ i op o r, code[i]? = some op → o ≤ s.input.size →
    (eval code i o r).Yields lax (TellsNode s op o r) fun _ r' => r.TellsPart s.watch r'

variable {r r' r'' : Run D σ} {n : Nat} {p : Phrase} {op : Opcode}

theorem TellsLaid.refl (ho : o ≤ s.input.size) (r : Run D σ) : TellsLaid s o r 0 r :=
  ⟨ho, [], by simp, .nil (Nat.le_refl o), .refl _ r⟩

theorem TellsNode.part (h : TellsNode s op o r p r') : r.TellsPart s.watch r' := by
  obtain ⟨-, below, -, htells⟩ := h
  refine ⟨_, ?_, htells.seen⟩
  rw [← Told.eventsOfAll_singleton]
  exact .between _

/-- One tree more. -/
theorem TellsLaid.snoc (h : TellsLaid s o r n r') (hnode : TellsNode s op (o + n) r' p r'') :
    TellsLaid s o r (n + p.length) r'' := by
  obtain ⟨-, ts, hsound, hlaid, htells⟩ := h
  obtain ⟨hfits, below, hnode, htells'⟩ := hnode
  refine ⟨by have := hfits.2; omega, ts ++ [.mk op (o + n) p below], ?_, ?_, ?_⟩
  · exact List.forall_mem_append.2 ⟨hsound, List.forall_mem_singleton.2 hnode⟩
  · rw [← Nat.add_assoc]
    exact Told.Laid.snoc (t := .mk op (o + n) p below) hlaid rfl
  · rw [Told.eventsOfAll_append, Told.eventsOfAll_singleton]
    exact htells.trans htells'

theorem TellsLaid.part (h : TellsLaid s o r n r') (h' : r'.TellsPart s.watch r'') : r.TellsPart s.watch r'' := by
  obtain ⟨-, ts, -, -, htells⟩ := h
  exact h'.after htells

/-- **An operator that combines others tells of what they read,** or fails. -/
theorem TellsLaid.below (h : TellsLaid s o r n r') (hop : op.symbol? = none) (hnot : ∀ c, ¬ (op = .and c ∨ op = .not c))
    (hp : p = .ofLength n ∨ p = .fail) : TellsBelow s op o r p r' := by
  obtain ⟨hle, ts, hsound, hlaid, htells⟩ := h
  refine ⟨?_, ts, hsound, ⟨by simp [hop], fun c hc => absurd hc (hnot c), fun _ hs => ?_⟩, htells⟩
  · rcases hp with rfl | rfl
    · exact Phrase.fits_ofLength.2 hle
    · exact Phrase.fits_fail.2 (by omega)
  · rcases hp with rfl | rfl
    · rwa [Phrase.length_ofLength]
    · exact absurd rfl hs

/-- **An operator that runs no other tells of nothing.** -/
theorem below_of_fits (hp : p.Fits s.input.size o)
    (hknown : ∀ symbol, op.symbol? = some symbol → (Selection.everything s.matcher.grammar).has symbol = true)
    (hr : r.Tells s.watch r' []) : TellsBelow s op o r p r' :=
  ⟨hp, [], by simp, ⟨hknown, fun _ _ => rfl, fun _ _ => .nil (Nat.le_add_right _ _)⟩, hr⟩

/-- **An operand adds its tree** to those that were laid before it. -/
theorem goesOn_tells {c : Nat} (hc : c < code.size) (he : TellsAt s lax eval code) (r : Run D σ) :
    GoesOn lax eval code o (TellsLaid s o r) (fun _ r' => r.TellsPart s.watch r') c := by
  intro n r' h
  refine (he c _ (o + n) r' (Array.getElem?_eq_getElem hc) h.1).mono (fun p r'' hnode => ?_) fun _ _ h' => h.part h'
  exact ⟨hnode.1.1, h.snoc hnode⟩

theorem lookahead_tells {child : Nat} (hchild : child < code.size) (ho : o ≤ s.input.size)
    (he : TellsAt s lax eval code) (hop : op.symbol? = none) (positive : Bool) (r : Run D σ) :
    (lookahead (eval code child o) positive r).Yields lax (TellsBelow s op o r) fun _ r' => r.TellsPart s.watch r' := by
  -- below the lookahead nobody is told of anything
  refine ((he child _ o { r with lookahead := r.lookahead + 1 } (Array.getElem?_eq_getElem hchild) ho).mono
    (fun p r' hnode => hnode) ?_).andThen ?_
  · rintro e r' ⟨es, -, hseen⟩
    refine ⟨[], .between [], ?_⟩
    rw [hseen]
    simp
  · rintro p r' ⟨-, below, -, htells⟩
    refine below_of_fits ?_ (by simp [hop]) ⟨?_, htells.depth, ?_⟩
    · split
      · exact Phrase.fits_empty.2 ho
      · exact Phrase.fits_fail.2 ho
    · show r'.lookahead - 1 = r.lookahead
      rw [htells.lookahead]
      rfl
    · show r'.seen = _
      rw [htells.seen]
      simp

theorem has_everything_rule {g : Grammar} {id : RuleId} (hid : id.index < g.rules.size) :
    (Selection.everything g).has (.rule id) = true := by simp [Selection.everything, Selection.has, hid]

theorem has_everything_udt {g : Grammar} {id : UdtId} (hid : id.index < g.udts.size) :
    (Selection.everything g).has (.udt id) = true := by simp [Selection.everything, Selection.has, hid]

/-- What a callback that only rejects makes of a decided phrase, is the phrase or a failure. -/
theorem settle_of_onlyRejects {f : Callback D} (hf : f.OnlyRejects) {name : Text} {d : D} {q : Phrase}
    (hp : p.Fits s.input.size o) (h : settle name (s.input.size - o) false (f p s.input o d).1 = .ok q) :
    q = p ∨ q.state = .noMatch := by
  rcases hf p s.input o d with hsame | hfail
  · rw [hsame, settle_of_fits name false hp] at h
    exact .inl (Except.ok.inj h).symm
  · right
    unfold settle at h
    rw [hfail] at h
    split at h
    · cases h
    · cases h
      rfl

theorem rnm_tells (hg : s.matcher.grammar.WellFormed) {id : RuleId} (hid : id.index < s.matcher.grammar.rules.size)
    (ho : o ≤ s.input.size) (he : ∀ code, s.matcher.grammar.Code code → TellsAt s lax eval code) (r : Run D σ) :
    (callRule s eval id o r).Yields lax (TellsBelow s (.rnm id) o r) fun _ r' => r.TellsPart s.watch r' := by
  have hrule := Array.getElem?_eq_getElem hid
  have hcode := hg _ _ hrule
  have hknown : ∀ symbol, (Opcode.rnm id).symbol? = some symbol →
      (Selection.everything s.matcher.grammar).has symbol = true := by
    rintro _ ⟨⟩
    exact has_everything_rule hid
  -- the root of the body, and what the callback makes of its phrase
  have hbody {r' r'' : Run D σ} {op : Opcode} {p q : Phrase} {d : D} (h : r.Tells s.watch r' [])
      (hnode : TellsNode s op o r' p r'') (hq : q.Fits s.input.size o)
      (hsame : s.matcher.OnlyRejects → q = p ∨ q.state = .noMatch) : TellsBelow s (.rnm id) o r q { r'' with data := d } := by
    obtain ⟨-, below, hsound, htells⟩ := hnode
    refine ⟨hq, [.mk op o p below], List.forall_mem_singleton.2 hsound, ⟨hknown, by simp, fun hrejects hs => ?_⟩, ?_⟩
    · obtain rfl := (hsame hrejects).resolve_right hs
      exact .cons (Nat.le_refl o) (.nil (Nat.le_refl _))
    · rw [Told.eventsOfAll_singleton]
      exact h.trans ⟨htells.lookahead, htells.depth, htells.seen⟩
  unfold callRule
  simp only [hrule]
  have hroot := Array.getElem?_eq_getElem hcode.root
  have heval : ∀ r, (eval _ 0 o r).Yields lax _ _ := fun r => he _ hcode 0 _ o r hroot ho
  cases hf : s.matcher.ruleCallback? id with
  | none =>
    refine (heval r).mono (fun p r' hnode => ?_) fun _ _ h => h
    exact hbody (.refl _ r) hnode hnode.1 fun _ => .inl rfl
  | some f =>
    refine Outcome.Yields.andThen (ask_yields (Q := fun p r' => (p.state = .active ∨ p.Fits s.input.size o) ∧
      r.Tells s.watch r' []) ho (fun q hq => ?_) fun e _ => ⟨[], .between [], by simp⟩) fun p r' hp => ?_
    · exact ⟨(settle_eq_ok ho hq).imp_left And.left, ⟨rfl, rfl, by simp⟩⟩
    by_cases ha : p.state = .active
    · rw [if_pos ha]
      refine ((heval r').mono (fun _ _ h => h) fun _ _ h => h.after_nothing hp.2).andThen fun p r'' hnode => ?_
      · refine ask_yields ho (fun q hq => ?_) fun e _ => ?_
        · exact hbody hp.2 hnode ((settle_eq_ok ho hq).resolve_left fun h => by cases h.2) fun hrejects =>
            settle_of_onlyRejects (hrejects id f hf) hnode.1 hq
        · exact (hnode.part).after_nothing hp.2
    · rw [if_neg ha]
      exact below_of_fits (hp.1.resolve_left ha) hknown hp.2

theorem udt_tells {id : UdtId} (hid : id.index < s.matcher.grammar.udts.size) (ho : o ≤ s.input.size) (r : Run D σ) :
    (callUdt s id o r).Yields lax (TellsBelow s (.udt id) o r) fun _ r' => r.TellsPart s.watch r' := by
  have hudt := Array.getElem?_eq_getElem hid
  have hpart (r' : Run D σ) (h : r.Tells s.watch r' []) : r.TellsPart s.watch r' := ⟨[], .between [], h.seen⟩
  unfold callUdt
  simp only [hudt]
  split
  · exact hpart r (.refl _ r)
  · refine Outcome.Yields.andThen (ask_yields (Q := fun p r' => p.Fits s.input.size o ∧ r.Tells s.watch r' []) ho
      (fun q hq => ?_) fun e _ => hpart _ ⟨rfl, rfl, by simp⟩) fun p r' hp => ?_
    · exact ⟨(settle_eq_ok ho hq).resolve_left fun h => (by cases h.2), ⟨rfl, rfl, by simp⟩⟩
    · split
      · exact hpart r' hp.2
      · refine below_of_fits hp.1 ?_ hp.2
        rintro _ ⟨⟩
        exact has_everything_udt hid

theorem apply_tells (hg : s.matcher.grammar.WellFormed) (hc : s.matcher.grammar.Code code)
    (he : ∀ code, s.matcher.grammar.Code code → TellsAt s lax eval code) (hop : code[i]? = some op)
    (ho : o ≤ s.input.size) (r : Run D σ) :
    (apply s eval code op o r).Yields lax (TellsBelow s op o r) fun _ r' => r.TellsPart s.watch r' := by
  have hwithin := hc.within i op hop
  refine apply_yields ho (fun c hcm => goesOn_tells (hwithin.children c hcm).2 (he code hc) r) (fun _ => .refl ho r)
    (fun hsymbol hnot p r' ⟨n, hlaid, hp⟩ => hlaid.below hsymbol hnot hp)
    (fun hsymbol p hp => below_of_fits hp (by simp [hsymbol]) (.refl _ r)) (fun c positive hcm => ?_)
    (fun id hid => ?_) fun id hid => ?_
  · rcases hcm with rfl | rfl <;>
      exact lookahead_tells (hwithin.children c (List.mem_singleton_self c)).2 ho (he code hc) rfl positive r
  · subst hid
    exact rnm_tells hg (hwithin.rule id rfl) ho he r
  · subst hid
    exact udt_tells (hwithin.udt id rfl) ho r

/-- **A step tells of its operator,** if the evaluator of its operands tells of theirs. -/
theorem step_tells (hg : s.matcher.grammar.WellFormed) (hc : s.matcher.grammar.Code code)
    (he : ∀ code, s.matcher.grammar.Code code → TellsAt s lax eval code) : TellsAt s lax (step s eval) code := by
  intro i op o r hop ho
  unfold step
  simp only [hop]
  refine ((apply_tells hg hc he hop ho (enter s op o r)).mono (fun _ _ h => h) fun e r' h => ?_).andThen fun p r' h => ?_
  · -- broken off below the operator, which has been told of
    obtain ⟨es, hcut, hseen⟩ := h
    refine ⟨.down op o :: es, .within [] op o hcut, ?_⟩
    rw [hseen]
    unfold enter
    split <;> simp [*]
  · obtain ⟨hfits, ts, hsound, hlawful, htells⟩ := h
    refine ⟨hfits, ts, .mk hlawful hsound, htells.lookahead, ?_, ?_⟩
    · show r'.depth - 1 = r.depth
      rw [htells.depth]
      rfl
    · have hseen := htells.seen
      unfold enter at hseen
      unfold leave
      by_cases hl : r.lookahead = 0
      · simp only [hl, if_true, decide_true] at hseen ⊢
        rw [hseen, Told.events, List.foldl_cons, List.foldl_append]
        rfl
      · simpa [hl] using hseen

/-- **Every operator tells of itself and of what it runs,** at every place of every run. -/
theorem execute_tells (hg : s.matcher.grammar.WellFormed) :
    ∀ (depth : Nat) {code : Array Opcode}, s.matcher.grammar.Code code → TellsAt s True (execute s depth) code
  | 0, _, _ => fun _ _ _ _ _ _ => trivial
  | depth + 1, _, hc => step_tells hg hc fun _ => execute_tells hg depth

end Engine
end SignIn
