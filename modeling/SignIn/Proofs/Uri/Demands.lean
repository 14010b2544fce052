import SignIn.Proofs.Rules.Total
import SignIn.Proofs.Text.Numerals
/-!
# The URI callbacks meet their demands

The callbacks of the URI rules slice the input, take delimiters off and count, in numbers of 32 bits.  That nothing of
this goes wrong depends on where a rule is called from.  A digit is added to an octet that has two digits at most,
because `dec-octet` begins with none and reads three; a group is counted at an offset that is at least the count so far,
because the forms of an address begin with none and do not go back behind a group; and a host is in brackets only if it
was one that has them.  So the audit of the callbacks finds nothing, whichever rule the match begins with
(`UriCapture.ensures_sound`).
-/
namespace SignIn
namespace UriCapture

open Lexicon

/-- The rules that count a 16-bit group. -/
def groupNames : List Text := ["h16", "h16c", "h16n", "h16cn"]

/-- The rules that count: groups, and the value of an octet. -/
def countingNames : List Text := ("dec-digit" : Text) :: groupNames

/-- **What a URI callback demands of its call:** the characters that it takes off are there, what it slices out of the
input is, and what it counts stays below 2 ^ 32. -/
def demand (name : Text) (p : Phrase) (input : Array Char) (o : Nat) (d : UriCapture) : Bool :=
  if p.state = .matched then
    if name = "userinfo-at" then decide (1 ≤ p.length ∧ o + (p.length - 1) ≤ input.size)
    else if name = "host" ∧ d.ipLiteral = true then decide (2 ≤ p.length ∧ (o + 1) + (p.length - 2) ≤ input.size)
    else if name ∈ groupNames then decide (d.groups + 1 < 2 ^ 32)
    else if name = "dec-digit" then
      decide (o < input.size ∧ d.octet * 10 + decimalValue (phraseText input o 1) < 2 ^ 32)
    else decide (o + p.length ≤ input.size)
  else decide (o ≤ input.size)

/-- **What the audit keeps:** nothing was wrong so far, the octet has three digits at most, no more groups were counted
than a bound, and, if `plain`, the host is not in brackets. -/
structure Counted (plain : Prop) (bound : Nat) (x : UriCapture × Bool) : Prop where
  sound : x.2 = true
  octet : x.1.octet < 1000
  groups : x.1.groups ≤ bound
  host : plain → x.1.ipLiteral = false

variable {plain : Prop} {bound bound' o : Nat} {x : UriCapture × Bool} {input : Array Char}

theorem Counted.mono (h : Counted plain bound x) (hle : bound ≤ bound') : Counted plain bound' x :=
  ⟨h.sound, h.octet, Nat.le_trans h.groups hle, h.host⟩

/-- The rules of URIs with their callbacks under audit. -/
noncomputable def audited : Lexicon (UriCapture × Bool) := (fieldMatcher.audit demand).lexicon bundledRules []

instance : audited.Exact := by
  refine ⟨?_⟩
  rw [audited, Matcher.counter_lexicon, Matcher.audit, (fieldMatcher_bound .exact).2.1]

theorem audited_bundles : audited.Bundles (actions.map fun a => (a.1, a.2.audited (demand a.1))) :=
  audit_bundles fieldMatcher_bundles.1 fieldMatcher_bundles.2

/-! ## The callbacks that count nothing -/

/-- **A callback that counts nothing:** it leaves the counts as they are or begins them anew, and does not say that a host
is in brackets. -/
def Light (plain : Prop) (f : Callback UriCapture) : Prop := ∀ p input o d,
  (f p input o d).2.octet ≤ d.octet ∧ (f p input o d).2.groups ≤ d.groups ∧
    (plain → d.ipLiteral = false → (f p input o d).2.ipLiteral = false)

theorem light_onMatch {note : Array Char → Nat → Nat → UriCapture → UriCapture}
    (h : ∀ input o n d, (note input o n d).octet = d.octet ∧ (note input o n d).groups = d.groups ∧
      (plain → (note input o n d).ipLiteral = d.ipLiteral)) : Light plain (.onMatch note) := by
  intro p input o d
  obtain ⟨hoctet, hgroups, hhost⟩ := h input o p.length d
  unfold Callback.onMatch
  split
  · exact ⟨Nat.le_of_eq hoctet, Nat.le_of_eq hgroups, fun hp hd => (hhost hp).trans hd⟩
  · exact ⟨Nat.le_refl _, Nat.le_refl _, fun _ => id⟩

theorem light_onSuccess {note : Array Char → Nat → Nat → UriCapture → UriCapture}
    (h : ∀ input o n d, (note input o n d).octet = d.octet ∧ (note input o n d).groups = d.groups ∧
      (note input o n d).ipLiteral = d.ipLiteral) : Light plain (.onSuccess note) := by
  intro p input o d
  obtain ⟨hoctet, hgroups, hhost⟩ := h input o p.length d
  unfold Callback.onSuccess
  split
  · exact ⟨Nat.le_of_eq hoctet, Nat.le_of_eq hgroups, fun _ hd => hhost.trans hd⟩
  · exact ⟨Nat.le_refl _, Nat.le_refl _, fun _ => id⟩

theorem light_judging {prepare : UriCapture → UriCapture} {holds : UriCapture → Bool}
    (h : ∀ d, (prepare d).octet ≤ d.octet ∧ (prepare d).groups ≤ d.groups ∧ (prepare d).ipLiteral = d.ipLiteral) :
    Light plain (.judging prepare holds) := by
  intro p input o d
  obtain ⟨hoctet, hgroups, hhost⟩ := h d
  unfold Callback.judging
  cases p.state with
  | active => exact ⟨hoctet, hgroups, fun _ hd => hhost.trans hd⟩
  | _ => exact ⟨Nat.le_refl _, Nat.le_refl _, fun _ => id⟩

/-- The callbacks of the other rules count nothing. -/
theorem light_actions : ∀ a ∈ actions, a.1 ∉ countingNames → (plain → a.1 ≠ "IP-literal") → Light plain a.2 := by
  have hcounts : ∀ {name : Text} {P Q : Prop}, name ∈ countingNames → name ∉ countingNames → Q → P :=
    fun hin hout _ => absurd hin hout
  simp only [actions, List.forall_mem_cons]
  refine ⟨fun _ _ p input o d => ?uri, fun _ _ => light_onMatch fun _ _ _ _ => ⟨rfl, rfl, fun _ => rfl⟩,
    fun _ _ => light_onMatch fun _ _ _ _ => ⟨rfl, rfl, fun _ => rfl⟩, fun _ _ p input o d => ?host,
    fun _ hplain => light_onMatch fun _ _ _ _ => ⟨rfl, rfl, fun hp => absurd rfl (hplain hp)⟩,
    fun _ _ p input o d => ?port, fun _ _ => light_onSuccess fun _ _ _ _ => ⟨rfl, rfl, rfl⟩,
    fun _ _ => light_onMatch fun _ _ _ _ => ⟨rfl, rfl, fun _ => rfl⟩,
    fun _ _ => light_onMatch fun _ _ _ _ => ⟨rfl, rfl, fun _ => rfl⟩,
    fun _ _ p input o d => ?emptyPath, fun _ _ => light_onSuccess fun _ _ _ _ => ⟨rfl, rfl, rfl⟩,
    fun _ _ => light_onSuccess fun _ _ _ _ => ⟨rfl, rfl, rfl⟩,
    fun _ _ => light_onMatch fun _ _ _ _ => ⟨rfl, rfl, fun _ => rfl⟩,
    fun _ _ => light_judging fun _ => ⟨Nat.le_refl _, Nat.zero_le _, rfl⟩,
    fun _ _ => light_judging fun _ => ⟨Nat.le_refl _, Nat.zero_le _, rfl⟩,
    hcounts (by decide), hcounts (by decide), hcounts (by decide), hcounts (by decide),
    fun _ _ => light_judging fun _ => ⟨Nat.zero_le _, Nat.le_refl _, rfl⟩, hcounts (by decide), by simp⟩
  case uri =>
    unfold onUri
    cases p.state with
    | active => exact ⟨Nat.zero_le _, Nat.zero_le _, fun _ _ => rfl⟩
    | _ => exact ⟨Nat.le_refl _, Nat.le_refl _, fun _ => id⟩
  case host =>
    unfold onHost
    cases p.state with
    | active => exact ⟨Nat.le_refl _, Nat.le_refl _, fun _ _ => rfl⟩
    | _ => exact ⟨Nat.le_refl _, Nat.le_refl _, fun _ => id⟩
  case port =>
    unfold onPort
    cases p.state with
    | matched =>
      dsimp only
      split
      · exact ⟨Nat.le_refl _, Nat.le_refl _, fun _ => id⟩
      · exact ⟨Nat.le_refl _, Nat.le_refl _, fun _ => id⟩
    | _ => exact ⟨Nat.le_refl _, Nat.le_refl _, fun _ => id⟩
  case emptyPath =>
    unfold onEmptyPath
    cases p.state <;> exact ⟨Nat.le_refl _, Nat.le_refl _, fun _ => id⟩

theorem Light.counted {f : Callback UriCapture} (hf : Light plain f) (h : Counted plain bound x) {name : Text} {p : Phrase}
    (hdemand : demand name p input o x.1 = true) : Counted plain bound ((f.audited (demand name)) p input o x).2 := by
  obtain ⟨hoctet, hgroups, hhost⟩ := hf p input o x.1
  refine ⟨?_, Nat.lt_of_le_of_lt hoctet h.octet, Nat.le_trans hgroups h.groups, fun hp => hhost hp (h.host hp)⟩
  show (x.2 && demand name p input o x.1) = true
  rw [h.sound, hdemand]
  rfl

/-! ## The callbacks that count -/

/-- The rules that count call no others. -/
theorem counting_rules : ∀ name ∈ countingNames, ∃ r ∈ bundledRules, r.1 = name ∧ r.2.stays [] [] [] 4 = true := by
  decide

/-- A rule whose callback notes a match, and which calls no others, leaves the data as they are but for the note. -/
theorem ensures_counting {name : Text} {body : Expr} {note : Array Char → Nat → Nat → UriCapture → UriCapture}
    {Q : Phrase → UriCapture × Bool → Prop} (hbody : (name, body) ∈ bundledRules) (hstays : body.stays [] [] [] 4 = true)
    (hf : (name, .onMatch note) ∈ actions) (ho : o ≤ input.size) (hx : x.2 = true)
    (hother : ∀ p, p.state ≠ .matched → p.Fits input.size o → Q p x)
    (hmatched : ∀ p, p.state = .matched → p.Fits input.size o → audited.outcome input body o x = .ended p x →
      demand name p input o x.1 = true ∧ Q p (note input o p.length x.1, true)) :
    audited.Ensures input (.rnm name) o x Q := by
  have hdef : audited.Defines name body (some (Callback.audited (demand name) (.onMatch note))) :=
    audited_bundles.bound hbody (List.mem_map.2 ⟨_, hf, rfl⟩)
  have hkeeps : audited.Keeps input (fun y => y = x) body := keeps_of_stays (by simp) (by simp) hstays
  have hdown : (Callback.audited (demand name) (.onMatch note) .undecided input o x).2 = x := by
    refine Prod.ext rfl ?_
    show (x.2 && decide (o ≤ input.size)) = x.2
    rw [decide_eq_true ho, Bool.and_true]
  refine ensures_rnm_judged hdef (Callback.judges_audited (Callback.judges_onMatch note)) ho
    (R := fun _ y => y = x) ?_ ?_
  · rw [hdown]
    exact hkeeps o x ho rfl
  · rintro p y hrun hp rfl
    rw [hdown] at hrun
    show Q p ((Callback.onMatch note p input o y.1).2, y.2 && demand name p input o y.1)
    unfold Callback.onMatch
    by_cases hs : p.state = .matched
    · obtain ⟨hdemand, hQ⟩ := hmatched p hs hp hrun
      rw [if_pos hs, hx, hdemand]
      exact hQ
    · have hdemand : demand name p input o y.1 = true := by
        unfold demand
        rw [if_neg hs]
        exact decide_eq_true ho
      rw [if_neg hs, hdemand, Bool.and_true]
      exact hother p hs hp

theorem pos_of_matched {p : Phrase} {size : Nat} (hp : p.Fits size o) (hs : p.state = .matched) : 0 < p.length :=
  hp.1.2.2 hs

/-- **A group is counted** at an offset that is at least the count so far. -/
theorem ensures_group {name : Text} (hname : name ∈ groupNames) (ho : o ≤ input.size) (hsize : input.size < 2 ^ 32)
    (hx : Counted plain o x) : audited.Ensures input (.rnm name) o x fun p y => Counted plain (o + p.length) y := by
  obtain ⟨⟨_, body⟩, hbody, rfl, hstays⟩ := counting_rules name (List.mem_cons_of_mem _ hname)
  have hf : ∀ n ∈ groupNames, (n, onGroup) ∈ actions := by
    simp only [groupNames, List.forall_mem_cons]
    simp [actions]
  refine ensures_counting hbody hstays (hf _ hname) ho hx.sound (fun p _ _ => hx.mono (Nat.le_add_right _ _)) ?_
  intro p hs hp _
  have hpos := pos_of_matched hp hs
  have hgroups := hx.groups
  have hlen := hp.2
  refine ⟨?_, rfl, hx.octet, ?_, hx.host⟩
  · have hne : ∀ n ∈ groupNames, n ≠ "userinfo-at" ∧ n ≠ "host" := by decide
    obtain ⟨hne₁, hne₂⟩ := hne _ hname
    unfold demand
    rw [if_pos hs, if_neg hne₁, if_neg fun h => hne₂ h.1, if_pos hname]
    exact decide_eq_true (by omega)
  · show x.1.groups + 1 ≤ o + p.length
    omega

theorem phraseText_one {c : Char} (h : input[o]? = some c) : phraseText input o 1 = [c] := by
  rw [phraseText_eq, drop_eq_cons.1 h, List.take_succ_cons, List.take_zero]

theorem range_matched {lo hi : Nat} (h : (Engine.range input lo hi o).state = .matched) :
    ∃ c, input[o]? = some c ∧ lo ≤ c.toNat ∧ c.toNat ≤ hi := by
  unfold Engine.range at h
  split at h
  · rename_i c hc
    split at h
    · rename_i hrange
      exact ⟨c, hc, hrange⟩
    · cases h
  · cases h

/-- **A digit of an octet** is worth nine at most. -/
theorem ensures_digit {k : Nat} (hk : k < 3) (ho : o ≤ input.size) (hx : Counted plain bound x) (hoctet : x.1.octet < 10 ^ k) :
    audited.Ensures input (.rnm "dec-digit") o x fun p y => Counted plain bound y ∧
      y.1.octet < 10 ^ (if p.state = .matched then k + 1 else k) := by
  have hbody : (("dec-digit" : Text), Rules.digit) ∈ bundledRules := by
    refine List.mem_append_right _ (List.mem_append_left _ (List.mem_append_right _ ?_))
    simp [Rules.host]
  have hf : (("dec-digit" : Text), onOctetDigit) ∈ actions := by simp [actions]
  have hpow : 10 ^ k ≤ 100 := Nat.pow_le_pow_right (by decide) (Nat.le_of_lt_succ hk)
  refine ensures_counting hbody (by decide) hf ho hx.sound ?_ ?_
  · intro p hs _
    rw [if_neg hs]
    exact ⟨hx, hoctet⟩
  · intro p hs _ hrun
    rw [outcome_eq, Rules.digit, apply, Outcome.ended.injEq] at hrun
    obtain ⟨c, hc, hrange⟩ := range_matched (by rw [hrun.1]; exact hs)
    have hlt : o < input.size := (Array.getElem?_eq_some_iff.1 hc).1
    have hdigit : decimalValue (phraseText input o 1) = c.toNat - 48 := by
      rw [phraseText_one hc]
      exact (decimalValue_append_digit [] c).trans (Nat.zero_add _)
    have hnext : x.1.octet * 10 + decimalValue (phraseText input o 1) < 10 ^ (k + 1) := by
      rw [hdigit, Nat.pow_succ]
      omega
    have hle : 10 ^ (k + 1) ≤ 1000 := by
      rw [Nat.pow_succ]
      omega
    rw [if_pos hs]
    refine ⟨?_, ⟨rfl, Nat.lt_of_lt_of_le hnext hle, hx.groups, hx.host⟩, hnext⟩
    unfold demand
    rw [if_pos hs, if_neg (by decide), if_neg (fun h => absurd h.1 (by decide)), if_neg (by decide), if_pos rfl]
    exact decide_eq_true ⟨hlt, by omega⟩

/-! ## What every rule keeps -/

/-- **A phrase of its rule meets the demand of a callback** that counts nothing; for a host in brackets it has to have
room for them. -/
theorem demand_of_fits {r : Text × Expr} (hr : r ∈ bundledRules) (hcounts : r.1 ∉ countingNames) {p : Phrase}
    (hp : p.Fits input.size o) (hleast : p.state ≠ .noMatch → r.2.atLeast ≤ p.length) {d : UriCapture}
    (hhost : r.1 = "host" → p.state = .matched → d.ipLiteral = true → 2 ≤ p.length) : demand r.1 p input o d = true := by
  have hlen := hp.2
  rw [countingNames, List.mem_cons, not_or] at hcounts
  unfold demand
  by_cases hs : p.state = .matched
  · rw [if_pos hs, if_neg hcounts.2, if_neg hcounts.1]
    split
    · rename_i h
      have hone := (delimited_atLeast r hr).2.2.2.1 h
      have hle := hleast (by rw [hs]; simp)
      exact decide_eq_true ⟨by omega, by omega⟩
    · split
      · rename_i h
        have htwo := hhost h.1 hs h.2
        exact decide_eq_true ⟨htwo, by omega⟩
      · exact decide_eq_true hlen
  · rw [if_neg hs]
    exact decide_eq_true (by omega)

theorem keptBy_light {r : Text × Expr} (hr : r ∈ bundledRules) {f : Callback UriCapture} (hf : (r.1, f) ∈ actions)
    (hcounts : r.1 ∉ countingNames) (hhost : r.1 ≠ "host") (hplain : plain → r.1 ≠ "IP-literal") :
    audited.KeptBy input (Counted plain bound) r.2 (f.audited (demand r.1)) where
  judges := Callback.judges_audited (judges_uri _ hf)
  down ho hx := (light_actions _ hf hcounts hplain).counted hx (decide_eq_true ho)
  up ho hp hrun hx := (light_actions _ hf hcounts hplain).counted hx
    (demand_of_fits hr hcounts hp (atLeast_le ho hrun) fun h => absurd h hhost)

/-- **What an expression keeps** within the rules that it reaches: the counts, if it does not reach those that count. -/
theorem keeps_within {units barred : List Text} (hcounts : ∀ name ∈ countingNames, name ∈ barred)
    (hhost : ("host" : Text) ∈ units ∨ ("host" : Text) ∈ barred) (hplain : plain → ("IP-literal" : Text) ∈ barred)
    (hunits : ∀ name ∈ units, audited.Keeps input (Counted plain bound) (.rnm name)) {n : Nat} {e : Expr}
    (he : e.stays bundledRules units barred n = true) : audited.Keeps input (Counted plain bound) e := by
  refine audited_bundles.keeps (fun r hr hu hb g hg => ?_) hunits he
  obtain ⟨⟨name, f⟩, hf, heq⟩ := List.mem_map.1 hg
  obtain ⟨rfl, rfl⟩ := Prod.mk.inj heq
  refine keptBy_light hr hf (fun h => hb (hcounts _ h)) (fun h => ?_) fun hp h => hb (by rw [h]; exact hplain hp)
  rcases hhost with hin | hin
  · exact hu (by rw [h]; exact hin)
  · exact hb (by rw [h]; exact hin)

/-- A rule that counts nothing keeps the counts if its expression does with what the callback prepares. -/
theorem keeps_unit {name : Text} {body : Expr} {f : Callback UriCapture} (hbody : (name, body) ∈ bundledRules)
    (hf : (name, f) ∈ actions) (hcounts : name ∉ countingNames) (hhost : name ≠ "host") (hplain : name ≠ "IP-literal")
    (h : ∀ o d, o ≤ input.size → Counted plain bound ((f .undecided input o d).2, true) →
      audited.Ensures input body o ((f .undecided input o d).2, true) fun _ => Counted plain bound) :
    audited.Keeps input (Counted plain bound) (.rnm name) := by
  intro o x ho hx
  have hkept : audited.KeptBy input (Counted plain bound) body (f.audited (demand name)) :=
    keptBy_light hbody hf hcounts hhost fun _ => hplain
  have hdown := hkept.down ho hx
  have hprepared : (f.audited (demand name) .undecided input o x).2 = ((f .undecided input o x.1).2, true) :=
    Prod.ext rfl hdown.sound
  refine ensures_rnm_judged (audited_bundles.bound hbody (List.mem_map.2 ⟨_, hf, rfl⟩)) hkept.judges ho
    (R := fun _ => Counted plain bound) ?_ fun p y hrun hp hy => hkept.up ho hp hrun hy
  rw [hprepared] at hdown ⊢
  exact h o x.1 ho hdown

theorem keeps_octet : audited.Keeps input (Counted plain bound) (.rnm "dec-octet") := by
  have hbody : (("dec-octet" : Text), Expr.rep 0 (some 3) (.rnm "dec-digit")) ∈ bundledRules := by
    refine List.mem_append_right _ (List.mem_append_left _ (List.mem_append_right _ ?_))
    simp [Rules.host]
  have hf : (("dec-octet" : Text), onOctet) ∈ actions := by simp [actions]
  refine keeps_unit hbody hf (by decide) (by decide) (by decide) fun o d ho hd => ?_
  refine ensures_rep (I := fun k _ y => Counted plain bound y ∧ y.1.octet < 10 ^ k) ho ⟨hd, ?_⟩ ?_ ?_
  · exact Nat.one_pos
  · rintro k n y hk hn ⟨hy, hoctet⟩
    exact (ensures_digit (hk 3 rfl) hn hy hoctet).mono fun p z h => h
  · exact fun k n y _ h => ⟨h.1, h.1⟩

/-- What reaches no count but that of an octet, keeps the counts. -/
theorem keeps_uncounted {n : Nat} {e : Expr} (he : e.stays bundledRules ["dec-octet"]
    (countingNames ++ (["nodcolon", "dcolon", "host", "IP-literal"] : List Text)) n = true) :
    audited.Keeps input (Counted plain bound) e :=
  keeps_within (fun _ h => List.mem_append_left _ h) (.inr (by decide)) (fun _ => by decide)
    (fun name h => by rw [List.mem_singleton.1 h]; exact keeps_octet) he

/-- The parts of a host that count no groups. -/
theorem uncounted_parts : ∀ e ∈ [Rules.ipv4Tail, .opt (.rnm "IPv4address"),
    .alt [.cat [.rnm "IPv4address", .not (.rnm "reg-name-char")], .rnm "reg-name"]], e.stays bundledRules ["dec-octet"]
      (countingNames ++ (["nodcolon", "dcolon", "host", "IP-literal"] : List Text)) 9 = true := by decide

/-! ## IPv6 addresses -/

/-- **Groups are counted one after another,** none of them given back. -/
theorem ensures_groups {first rest : Text} (hfirst : first ∈ groupNames) (hrest : rest ∈ groupNames) (ho : o ≤ input.size)
    (hsize : input.size < 2 ^ 32) (hx : Counted plain o x) :
    audited.Ensures input (.cat [.rnm first, .star (.rnm rest)]) o x fun p y => Counted plain (o + p.length) y := by
  refine ensures_cat_cons (ensures_group hfirst ho hsize hx) (fun _ h => h) (fun p y _ hp hy => ?_) ho
  have hstar : audited.Ensures input (.star (.rnm rest)) (o + p.length) y fun q z =>
      q.state ≠ .noMatch ∧ Counted plain (o + p.length + q.length) z := by
    refine ensures_rep (I := fun _ n z => Counted plain (o + p.length + n) z) hp.2 hy ?_ ?_
    · intro k n z _ hn hz
      exact (ensures_group hrest hn hsize hz).mono fun q w hw => by rwa [Nat.add_assoc] at hw
    · intro k n z _ hz
      have hlen : (Phrase.ofLength n).state ≠ .noMatch ∧ Counted plain (o + p.length + (Phrase.ofLength n).length) z := by
        rw [Phrase.length_ofLength]
        exact ⟨Phrase.state_ofLength_ne n, hz⟩
      refine ⟨?_, hlen⟩
      rw [Engine.repeated, if_pos (Nat.zero_le k)]
      exact hlen
  refine ensures_cat_one (hstar.mono fun q z h => ?_) hp.2
  rw [Phrase.after, if_neg h.1, Phrase.length_ofLength, ← Nat.add_assoc]
  exact h.2

theorem keeps_ipv4Tail : audited.Keeps input (Counted plain bound) Rules.ipv4Tail :=
  keeps_uncounted (uncounted_parts _ List.mem_cons_self)

/-- The groups of an address and what may follow them. -/
theorem ensures_groups_tail {first rest : Text} (hfirst : first ∈ groupNames) (hrest : rest ∈ groupNames)
    (ho : o ≤ input.size) (hsize : input.size < 2 ^ 32) (hx : Counted plain o x) :
    audited.Ensures input (.cat [.cat [.rnm first, .star (.rnm rest)], Rules.ipv4Tail]) o x fun _ y =>
      Counted plain input.size y := by
  refine ensures_cat_cons (ensures_groups hfirst hrest ho hsize hx) (fun y hy => hy.mono ho) (fun p y _ hp hy => ?_) ho
  exact ensures_cat_one (keeps_ipv4Tail _ _ hp.2 (hy.mono hp.2)) hp.2

/-- **The form without `::`** begins with no group. -/
theorem keeps_nodcolon (hsize : input.size < 2 ^ 32) : audited.Keeps input (Counted plain input.size) (.rnm "nodcolon") := by
  have hbody : (("nodcolon" : Text), Expr.cat [Rules.groups, Rules.ipv4Tail]) ∈ bundledRules := by
    refine List.mem_append_right _ (List.mem_append_left _ (List.mem_append_right _ ?_))
    simp [Rules.host]
  have hf : (("nodcolon" : Text), onAllGroups) ∈ actions := by simp [actions]
  refine keeps_unit hbody hf (by decide) (by decide) (by decide) fun o d ho hd => ?_
  exact ensures_groups_tail (by decide) (by decide) ho hsize ⟨rfl, hd.octet, Nat.zero_le o, hd.host⟩

/-- **The form with `::`** begins with no group, and counts those before it and those after it. -/
theorem keeps_dcolon (hsize : input.size < 2 ^ 32) : audited.Keeps input (Counted plain input.size) (.rnm "dcolon") := by
  have hbody : (("dcolon" : Text), Expr.cat [.opt (.cat [.rnm "h16", .star (.rnm "h16c")]), .tbs "::",
      .alt [.cat [Rules.groups, Rules.ipv4Tail], .opt (.rnm "IPv4address")]]) ∈ bundledRules := by
    refine List.mem_append_right _ (List.mem_append_left _ (List.mem_append_right _ ?_))
    simp [Rules.host]
  have hf : (("dcolon" : Text), onSomeGroups) ∈ actions := by simp [actions]
  refine keeps_unit hbody hf (by decide) (by decide) (by decide) fun o d ho hd => ?_
  have hstart : Counted plain o ((onSomeGroups .undecided input o d).2, true) := ⟨rfl, hd.octet, Nat.zero_le o, hd.host⟩
  have hbefore : audited.Ensures input (.opt (.cat [.rnm "h16", .star (.rnm "h16c")])) o
      ((onSomeGroups .undecided input o d).2, true) fun p y => Counted plain (o + p.length) y := by
    refine ensures_rep (I := fun _ n y => Counted plain (o + n) y) ho hstart ?_ ?_
    · intro k n y _ hn hy
      exact (ensures_groups (by decide) (by decide) hn hsize hy).mono fun p z hz => by rwa [Nat.add_assoc] at hz
    · intro k n y _ hy
      rw [Engine.repeated, if_pos (Nat.zero_le k), Phrase.length_ofLength]
      exact ⟨hy, hy⟩
  refine ensures_cat_cons hbefore (fun y hy => hy.mono ho) (fun p y _ hp hy => ?_) ho
  have hcolons : audited.Keeps input (Counted plain (o + p.length)) (.tbs "::") := keeps_uncounted (n := 1) rfl
  refine ensures_cat_cons (hcolons _ _ hp.2 hy) (fun z hz => hz.mono hp.2) (fun q z _ hq hz => ?_) hp.2
  refine ensures_cat_one (ensures_alt_cons (ensures_groups_tail (by decide) (by decide) hq.2 hsize
    (hz.mono (Nat.le_add_right _ _))) (fun _ _ _ h => h) (fun w hw => ?_) hq.2) hq.2
  refine ensures_alt_cons ?_ (fun _ _ _ h => h) (fun v hv => ensures_alt_nil hv) hq.2
  exact keeps_uncounted (uncounted_parts _ (List.mem_cons_of_mem _ List.mem_cons_self)) _ _ hq.2 hw

/-! ## Hosts -/

theorem keeps_counted (hsize : input.size < 2 ^ 32) :
    ∀ name ∈ (["dec-octet", "nodcolon", "dcolon"] : List Text),
      audited.Keeps input (Counted plain input.size) (.rnm name) := by
  simp only [List.forall_mem_cons]
  exact ⟨keeps_octet, keeps_nodcolon hsize, keeps_dcolon hsize, by simp⟩

/-- **A host in brackets has them,** and one that is not is not said to be. -/
theorem ensures_bracketed (ho : o ≤ input.size) (hsize : input.size < 2 ^ 32) (hx : Counted True input.size x) :
    audited.Ensures input (.rnm "IP-literal") o x fun p y => Counted False input.size y ∧
      (p.state ≠ .noMatch → 2 ≤ p.length) ∧ (p.state = .noMatch → Counted True input.size y) := by
  have hbody : (("IP-literal" : Text), Expr.cat [.tbs "[", .alt [.rnm "IPv6address", .rnm "IPvFuture"], .tbs "]"]) ∈
      bundledRules := by
    refine List.mem_append_right _ (List.mem_append_left _ (List.mem_append_right _ ?_))
    simp [Rules.host]
  have hf : (("IP-literal" : Text), onIpLiteral) ∈ actions := by simp [actions]
  have hkeeps : audited.Keeps input (Counted True input.size)
      (.cat [.tbs "[", .alt [.rnm "IPv6address", .rnm "IPvFuture"], .tbs "]"]) :=
    @keeps_within _ _ _ ["dec-octet", "nodcolon", "dcolon"] (countingNames ++ (["host", "IP-literal"] : List Text))
      (fun _ h => List.mem_append_left _ h) (.inr (by decide)) (fun _ => by decide) (keeps_counted hsize) 9 _
      (by decide)
  have hdown : (onIpLiteral.audited (demand "IP-literal") .undecided input o x).2 = x := by
    refine Prod.ext rfl ?_
    show (x.2 && decide (o ≤ input.size)) = x.2
    rw [decide_eq_true ho, Bool.and_true]
  refine ensures_rnm_judged (audited_bundles.bound hbody (List.mem_map.2 ⟨_, hf, rfl⟩))
    (Callback.judges_audited (judges_uri _ hf)) ho (R := fun _ => Counted True input.size) ?_ fun p y hrun hp hy => ?_
  · rw [hdown]
    exact hkeeps o x ho hx
  have hleast : p.state ≠ .noMatch → 2 ≤ p.length := fun hs =>
    Nat.le_trans ((delimited_atLeast _ hbody).2.2.2.2 rfl) (atLeast_le ho hrun hs)
  have hdemand : demand "IP-literal" p input o y.1 = true :=
    demand_of_fits hbody (by decide) hp (atLeast_le ho hrun) fun h => absurd h (by decide)
  refine ⟨?_, hleast, fun hs => ?_⟩
  · have hlight : Light False onIpLiteral := light_actions _ hf (by decide) (fun h => h.elim)
    exact hlight.counted ⟨hy.sound, hy.octet, hy.groups, fun h => h.elim⟩ hdemand
  · have hs : p.state = .noMatch := hs
    have hsame : (onIpLiteral.audited (demand "IP-literal") p input o y).2 = y := by
      refine Prod.ext ?_ ?_
      · show (onIpLiteral p input o y.1).2 = y.1
        rw [onIpLiteral, Callback.onMatch, hs]
        rfl
      · show (y.2 && demand "IP-literal" p input o y.1) = y.2
        rw [hdemand, Bool.and_true]
    rw [hsame]
    exact hy

theorem keeps_host (hsize : input.size < 2 ^ 32) : audited.Keeps input (Counted False input.size) (.rnm "host") := by
  intro o x ho hx
  have hbody : (("host" : Text), Expr.alt [.rnm "IP-literal", .cat [.rnm "IPv4address", .not (.rnm "reg-name-char")],
      .rnm "reg-name"]) ∈ bundledRules := by
    refine List.mem_append_right _ (List.mem_append_left _ (List.mem_append_right _ ?_))
    simp [Rules.host]
  have hf : (("host" : Text), onHost) ∈ actions := by simp [actions]
  have hlight : Light False onHost := light_actions _ hf (by decide) (fun h => h.elim)
  have hdown : Counted True input.size (onHost.audited (demand "host") .undecided input o x).2 := by
    have hcounted : Counted False input.size (onHost.audited (demand "host") .undecided input o x).2 :=
      hlight.counted hx (decide_eq_true ho)
    exact ⟨hcounted.sound, hcounted.octet, hcounted.groups, fun _ => rfl⟩
  have hothers : ∀ y, Counted True input.size y → audited.Ensures input
      (.alt [.cat [.rnm "IPv4address", .not (.rnm "reg-name-char")], .rnm "reg-name"]) o y fun _ => Counted True input.size :=
    fun y hy => keeps_uncounted (uncounted_parts _ (List.mem_cons_of_mem _ (List.mem_cons_of_mem _ List.mem_cons_self))) o y ho hy
  refine ensures_rnm_judged (audited_bundles.bound hbody (List.mem_map.2 ⟨_, hf, rfl⟩))
    (Callback.judges_audited (judges_uri _ hf)) ho
    (R := fun p y => Counted False input.size y ∧ (y.1.ipLiteral = true → p.state ≠ .noMatch → 2 ≤ p.length))
    ?_ fun p y hrun hp hy => ?_
  · refine ensures_alt_cons (ensures_bracketed ho hsize hdown) (fun p y _ h => ⟨h.1, fun _ => h.2.1⟩) (fun y h => ?_) ho
    refine (hothers y (h.2.2 rfl)).mono fun p z hz => ⟨⟨hz.sound, hz.octet, hz.groups, fun h => h.elim⟩, fun hlit => ?_⟩
    rw [hz.host trivial] at hlit
    cases hlit
  · refine hlight.counted hy.1 (demand_of_fits hbody (by decide) hp (atLeast_le ho hrun) fun _ hs hlit => ?_)
    exact hy.2 hlit (by rw [hs]; simp)

/-! ## Every rule -/

theorem bundledRules_count : ∀ name ∈ bundledNames, name ∉ countingNames → (Expr.rnm name).stays bundledRules
    ["dec-octet", "nodcolon", "dcolon", "host"] countingNames (bundledDepth + 1) = true := by decide

/-- **The URI rules meet the demands of their callbacks,** whichever is the start. -/
theorem ensures_sound (hsize : input.size < 2 ^ 32) {name : Text} (hname : name ∈ bundledNames) :
    audited.Ensures input (.rnm name) 0 (empty, true) fun _ x => x.2 = true := by
  have hstart : Counted False 0 (empty, true) := ⟨rfl, by decide, Nat.le_refl 0, fun h => h.elim⟩
  by_cases hcounts : name ∈ countingNames
  · rw [countingNames, List.mem_cons] at hcounts
    rcases hcounts with rfl | hgroup
    · exact (ensures_digit (k := 0) (by decide) (Nat.zero_le _) hstart Nat.one_pos).mono fun p y h => h.1.sound
    · exact (ensures_group hgroup (Nat.zero_le _) hsize hstart).mono fun p y h => h.sound
  · refine (keeps_within (fun _ h => h) (.inl (by decide)) (fun h => h.elim) ?_
      (bundledRules_count name hname hcounts) 0 _ (Nat.zero_le _) (hstart.mono (Nat.zero_le input.size))).mono
      fun p y h => h.sound
    simp only [List.forall_mem_cons]
    exact ⟨keeps_octet, keeps_nodcolon hsize, keeps_dcolon hsize, keeps_host hsize, by simp⟩

end UriCapture
end SignIn
