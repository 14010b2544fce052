import SignIn.Proofs.Message.Sheet
import SignIn.Proofs.Rules.Bundled
/-!
# The structural rules, line by line

Each structural rule fills a slot: it reads characters up to one that ends the slot, and its callback notes them with
their place.  The lemmas here say of every group of items of `Rules.messageBody` which texts it takes and what is noted,
whatever comes before and after.  They are equivalences wherever a group is decided by what it reads; where an option
yields to what comes after it, there is one lemma for each of its two ways.
-/
namespace SignIn

/-- A character of ASCII, other than one. -/
def AsciiBut (k c : Char) : Prop := c.toNat ≤ 127 ∧ c ≠ k

instance (k c : Char) : Decidable (AsciiBut k c) := inferInstanceAs (Decidable (_ ∧ _))

/-- **What fills a slot** that a character ends. -/
def Fills (k : Char) (x : Text) : Prop := x ≠ [] ∧ ∀ c ∈ x, AsciiBut k c

theorem not_asciiBut_self (k : Char) : ¬ AsciiBut k k := fun h => h.2 rfl

theorem Fills.not_mem {k : Char} {x : Text} (h : Fills k x) : k ∉ x := fun hk => not_asciiBut_self k (h.2 k hk)

/-- **Nothing more fits a slot:** what comes next does not belong to it. -/
def Ends (k : Char) (s : Text) : Prop := ∀ c, s.head? = some c → ¬ AsciiBut k c

theorem ends_nil (k : Char) : Ends k [] := fun c hc => by cases hc

theorem ends_of_head {k : Char} {s : Text} (h : ∀ c, s.head? = some c → c = k) : Ends k s := by
  intro c hc
  rw [h c hc]
  exact not_asciiBut_self k

theorem ends_lf (s : Text) : Ends '\n' ("\n" ++ s) := ends_of_head (by simp)

theorem window_capture (pre x post : Text) :
    Capture.ofInput (pre ++ (x ++ post)).toArray pre.length x.length = ⟨x, utf8Length pre⟩ := by
  have hbefore : phraseText (pre ++ (x ++ post)).toArray 0 pre.length = pre := by
    rw [phraseText_eq, List.toList_toArray, List.drop_zero, List.take_left]
  rw [Capture.ofInput, Lexicon.window_length, byteOffset, hbefore]

/-- A capture that leaves out what a rule reads first. -/
theorem window_capture_after (pre lead x post : Text) :
    Capture.ofInput (pre ++ ((lead ++ x) ++ post)).toArray (pre.length + lead.length) ((lead ++ x).length - lead.length) =
      ⟨x, utf8Length (pre ++ lead)⟩ := by
  have h := window_capture (pre ++ lead) x post
  rwa [List.append_assoc, ← List.append_assoc lead, List.length_append,
    show x.length = (lead ++ x).length - lead.length by rw [List.length_append, Nat.add_sub_cancel_left]] at h

/-- A capture that leaves out what a rule reads last. -/
theorem window_capture_before (pre x tail post : Text) :
    Capture.ofInput (pre ++ ((x ++ tail) ++ post)).toArray pre.length ((x ++ tail).length - tail.length) =
      ⟨x, utf8Length pre⟩ := by
  have h := window_capture pre x (tail ++ post)
  rwa [← List.append_assoc x, show x.length = (x ++ tail).length - tail.length by
    rw [List.length_append, Nat.add_sub_cancel_right]] at h

namespace Lexicon

section

variable {D : Type} {l : Lexicon D} {e : Expr} {es : List Expr} {pre x post : Text} {d d' : D}

/-! ## Slots and literals -/

theorem class_but {k : Char} {n : Nat} (hk : k.toNat = n + 1) (hn : n ≤ 127) :
    l.Class (.alt [.trg 0 n, .trg (n + 2) 127]) (AsciiBut k) := by
  refine (class_alt_cons (class_trg 0 n) (class_alt_cons (class_trg (n + 2) 127) class_alt_nil)).congr fun c => ?_
  rw [AsciiBut, ne_eq, ← Char.toNat_inj, hk, or_false]
  omega

theorem class_lineChar : l.Class Rules.lineChar (AsciiBut '\n') := class_but (by decide) (by decide)

theorem takes_lf : l.Takes Rules.lf pre x post d d' ↔ x = "\n" ∧ d' = d := by
  rw [Rules.lf, Expr.ch, (class_trg 10 10).takes]
  refine and_congr_left fun _ => ⟨?_, ?_⟩
  · rintro ⟨c, rfl, hc⟩
    obtain rfl : c = '\n' := Char.toNat_inj.1 (Nat.le_antisymm hc.2 hc.1)
    rfl
  · rintro rfl
    exact ⟨'\n', rfl, by decide⟩

theorem refuses_lf : l.Refuses Rules.lf pre post d d' ↔ post.head? ≠ some '\n' ∧ d' = d := by
  rw [Rules.lf, Expr.ch, (class_trg 10 10).refuses]
  refine and_congr_left fun _ => ⟨fun h hc => h '\n' hc (by decide), fun h c hc hn => h ?_⟩
  rw [hc, ← Char.toNat_inj.1 (Nat.le_antisymm hn.2 hn.1 : c.toNat = '\n'.toNat)]

theorem takes_cat_lf : l.Takes (.cat (Rules.lf :: es)) pre x post d d' ↔
    ∃ z, x = "\n" ++ z ∧ l.Takes (.cat es) (pre ++ "\n") z post d d' := by
  simp only [takes_cat_cons, takes_lf]
  constructor
  · rintro ⟨y, z, d₁, rfl, ⟨rfl, rfl⟩, h⟩
    exact ⟨z, rfl, h⟩
  · rintro ⟨z, rfl, h⟩
    exact ⟨_, z, d, rfl, ⟨rfl, rfl⟩, h⟩

end

section

variable {l : Lexicon MessageCapture} {e : Expr} {es : List Expr} {pre x post name : Text} {d d' : MessageCapture}
  {put : Capture → MessageCapture → MessageCapture} {k : Char}

/-- **A rule that fills a slot and notes it.** -/
theorem takes_slot [l.Exact] (h : l.Defines name (.plus e) (some (MessageCapture.onLine put)))
    (hk : l.Class e (AsciiBut k)) :
    l.Takes (.rnm name) pre x post d d' ↔ Fills k x ∧ Ends k post ∧ d' = put ⟨x, utf8Length pre⟩ d := by
  rw [takes_rnm_onMatch h]
  simp only [takes_plus_class hk, window_capture]
  constructor
  · rintro ⟨d₁, ⟨hne, hx, hpost, rfl⟩, rfl⟩
    exact ⟨⟨hne, hx⟩, hpost, if_neg hne⟩
  · rintro ⟨⟨hne, hx⟩, hpost, rfl⟩
    exact ⟨d, ⟨hne, hx, hpost, rfl⟩, if_neg hne⟩

theorem refuses_slot [l.Exact] (h : l.Defines name (.plus e) (some (MessageCapture.onLine put)))
    (hk : l.Class e (AsciiBut k)) :
    l.Refuses (.rnm name) pre post d d' ↔ Ends k post ∧ d' = d := by
  rw [MessageCapture.onLine] at h
  rw [refuses_rnm_onMatch h, refuses_plus_class hk]
  rfl

theorem takes_cat_slot [l.Exact] (h : l.Defines name (.plus e) (some (MessageCapture.onLine put)))
    (hk : l.Class e (AsciiBut k)) :
    l.Takes (.cat (.rnm name :: es)) pre x post d d' ↔ ∃ v z, x = v ++ z ∧ Fills k v ∧ Ends k (z ++ post) ∧
      l.Takes (.cat es) (pre ++ v) z post (put ⟨v, utf8Length pre⟩ d) d' := by
  simp only [takes_cat_cons, takes_slot h hk]
  constructor
  · rintro ⟨v, z, d₁, rfl, ⟨hv, hz, rfl⟩, h⟩
    exact ⟨v, z, rfl, hv, hz, h⟩
  · rintro ⟨v, z, rfl, hv, hz, h⟩
    exact ⟨v, z, _, rfl, ⟨hv, hz, rfl⟩, h⟩

theorem phrase_onLead (line : RequiredLine) (p : Phrase) (input : Array Char) (o : Nat) (d : MessageCapture) :
    (MessageCapture.onLead line p input o d).1 = p := by
  unfold MessageCapture.onLead
  cases p.state <;> rfl

theorem judges_onLead (line : RequiredLine) : (MessageCapture.onLead line).Judges :=
  fun p input o d => .inl (phrase_onLead line p input o d)

/-- The callback of a lead leaves alone what its rule reads. -/
theorem takes_lead {line : RequiredLine} (h : l.Defines name (.tbs line.lead) (some (MessageCapture.onLead line))) :
    l.Takes (.rnm name) pre x post d d' ↔ x = line.lead ∧ d' = d := by
  have hmatched : (Phrase.ofLength line.lead.length).state = .matched := by simp [RequiredLine.lead]
  rw [takes_rnm_judged h (judges_onLead line)]
  simp only [takes_tbs]
  constructor
  · rintro ⟨d₁, ⟨rfl, rfl⟩, hnote⟩
    rw [MessageCapture.onLead, hmatched] at hnote
    exact ⟨rfl, (congrArg Prod.snd hnote).symm⟩
  · rintro ⟨rfl, rfl⟩
    refine ⟨d', ⟨rfl, rfl⟩, ?_⟩
    rw [MessageCapture.onLead, hmatched]

/-- **A line that a message must have:** its lead, and a slot. -/
theorem takes_required [l.Exact] {line : RequiredLine} {lead field : Text}
    (hlead : l.Defines lead (.tbs line.lead) (some (MessageCapture.onLead line)))
    (h : l.Defines field (.plus Rules.lineChar) (some (MessageCapture.onLine put))) :
    l.Takes (.cat (.rnm lead :: .rnm field :: es)) pre x post d d' ↔ ∃ v z, x = line.lead ++ (v ++ z) ∧ Fills '\n' v ∧
      Ends '\n' (z ++ post) ∧
      l.Takes (.cat es) (pre ++ line.lead ++ v) z post (put ⟨v, utf8Length (pre ++ line.lead)⟩ d) d' := by
  rw [takes_cat_cons]
  simp only [takes_lead hlead, takes_cat_slot h class_lineChar]
  constructor
  · rintro ⟨y, z, d₁, rfl, ⟨rfl, rfl⟩, v, z', rfl, hv, hz, h⟩
    exact ⟨v, z', rfl, hv, hz, h⟩
  · rintro ⟨v, z', rfl, hv, hz, h⟩
    exact ⟨_, _, d, rfl, ⟨rfl, rfl⟩, v, z', rfl, hv, hz, h⟩

/-- A slot and the line feed that ends it. -/
theorem takes_cat_line [l.Exact] (h : l.Defines name (.plus Rules.lineChar) (some (MessageCapture.onLine put))) :
    l.Takes (.cat (.rnm name :: Rules.lf :: es)) pre x post d d' ↔ ∃ v z, x = v ++ ("\n" ++ z) ∧ Fills '\n' v ∧
      l.Takes (.cat es) (pre ++ v ++ "\n") z post (put ⟨v, utf8Length pre⟩ d) d' := by
  simp only [takes_cat_slot h class_lineChar, takes_cat_lf]
  constructor
  · rintro ⟨v, z, rfl, hv, -, z', rfl, h⟩
    exact ⟨v, z', rfl, hv, h⟩
  · rintro ⟨v, z', rfl, hv, h⟩
    exact ⟨v, _, rfl, hv, by rw [List.append_assoc]; exact ends_lf _, z', rfl, h⟩

theorem takes_required_line [l.Exact] {line : RequiredLine} {lead field : Text}
    (hlead : l.Defines lead (.tbs line.lead) (some (MessageCapture.onLead line)))
    (h : l.Defines field (.plus Rules.lineChar) (some (MessageCapture.onLine put))) :
    l.Takes (.cat (.rnm lead :: .rnm field :: Rules.lf :: es)) pre x post d d' ↔
      ∃ v z, x = line.lead ++ (v ++ ("\n" ++ z)) ∧ Fills '\n' v ∧ l.Takes (.cat es) (pre ++ line.lead ++ v ++ "\n") z post
        (put ⟨v, utf8Length (pre ++ line.lead)⟩ d) d' := by
  simp only [takes_required hlead h, takes_cat_lf]
  constructor
  · rintro ⟨v, z, rfl, hv, -, z', rfl, h⟩
    exact ⟨v, z', rfl, hv, h⟩
  · rintro ⟨v, z', rfl, hv, h⟩
    exact ⟨v, _, rfl, hv, by rw [List.append_assoc]; exact ends_lf _, z', rfl, h⟩

/-! ## Lines that may be absent -/

/-- A line that is taken begins with its label, and its field is taken after that. -/
theorem takes_labelled {label field : Text} : l.Takes (.cat [Rules.lf, .tbs label, .rnm field]) pre x post d d' ↔
    ∃ t, x = labelled label t ∧ l.Takes (.rnm field) (pre ++ labelled label []) t post d d' := by
  have hpre : pre ++ labelled label [] = pre ++ "\n" ++ label := by
    rw [labelled, List.append_nil, List.append_assoc]
  rw [takes_cat_lf]
  simp only [takes_cat_tbs]
  simp only [takes_cat_cons, takes_cat_nil, hpre]
  constructor
  · rintro ⟨_, rfl, _, rfl, t, _, d₁, rfl, h, rfl, rfl⟩
    exact ⟨t, by rw [labelled, List.append_nil, List.append_assoc], h⟩
  · rintro ⟨t, rfl, h⟩
    refine ⟨label ++ t, by rw [labelled, List.append_assoc], t, rfl, t, [], d', by rw [List.append_nil], h, rfl, rfl⟩

/-- Where a line is refused nothing is noted, unless its field notes something as it refuses. -/
theorem refuses_labelled {label field : Text} (hquiet : ∀ {pre post d d'}, l.Refuses (.rnm field) pre post d d' → d' = d)
    (h : l.Refuses (.cat [Rules.lf, .tbs label, .rnm field]) pre post d d') : d' = d := by
  rw [refuses_cat_cons] at h
  rcases h with h | ⟨y, z, d₁, rfl, hlf, h⟩
  · exact (refuses_lf.1 h).2
  obtain ⟨rfl, rfl⟩ := takes_lf.1 hlf
  rw [refuses_cat_cons] at h
  rcases h with h | ⟨y, z, d₂, rfl, htbs, h⟩
  · exact (refuses_tbs.1 h).2
  obtain ⟨rfl, rfl⟩ := takes_tbs.1 htbs
  rw [refuses_cat_cons] at h
  rcases h with h | ⟨_, _, _, _, _, h⟩
  · exact hquiet h
  · exact absurd h refuses_cat_nil

/-- **A line that may be absent,** as it is found in what was taken. -/
theorem takes_optional_elim [l.Exact] {label field : Text}
    (hquiet : ∀ {pre post d d'}, l.Refuses (.rnm field) pre post d d' → d' = d)
    (h : l.Takes (.cat (Rules.optionalLine label field :: es)) pre x post d d') : ∃ v z d₁,
      x = optionalPart (labelled label) v ++ z ∧
      (∀ t ∈ v, l.Takes (.rnm field) (pre ++ labelled label []) t (z ++ post) d d₁) ∧ (v = none → d₁ = d) ∧
      l.Takes (.cat es) (pre ++ optionalPart (labelled label) v) z post d₁ d' := by
  obtain ⟨y, z, d₁, rfl, hopt, hrest⟩ := takes_cat_cons.1 h
  rcases takes_opt.1 hopt with ⟨rfl, -, rfl⟩ | ⟨-, htaken | ⟨rfl, href⟩⟩
  · exact ⟨none, z, d₁, rfl, by simp, fun _ => rfl, hrest⟩
  · obtain ⟨t, rfl, ht⟩ := takes_labelled.1 htaken
    exact ⟨some t, z, d₁, rfl, by simpa using ht, by simp, hrest⟩
  · exact ⟨none, z, d₁, rfl, by simp, fun _ => refuses_labelled hquiet href, hrest⟩

theorem takes_optional_some [l.Exact] {label field t : Text} {d₁ : MessageCapture}
    (ht : l.Takes (.rnm field) (pre ++ labelled label []) t (x ++ post) d d₁)
    (h : l.Takes (.cat es) (pre ++ labelled label t) x post d₁ d') :
    l.Takes (.cat (Rules.optionalLine label field :: es)) pre (labelled label t ++ x) post d d' :=
  takes_cat_cons.2 ⟨_, x, d₁, rfl, takes_opt.2 (.inr ⟨by simp [labelled], .inl (takes_labelled.2 ⟨t, rfl, ht⟩)⟩), h⟩

/-- A line is passed over where its label does not stand. -/
theorem takes_optional_none {label field : Text} (hlabel : ¬ labelled label [] <+: x ++ post)
    (h : l.Takes (.cat es) pre x post d d') : l.Takes (.cat (Rules.optionalLine label field :: es)) pre x post d d' := by
  refine takes_cat_cons.2 ⟨[], x, d, rfl, takes_opt.2 ?_, by rwa [List.append_nil]⟩
  by_cases hend : x ++ post = []
  · exact .inl ⟨rfl, hend, rfl⟩
  refine .inr ⟨hend, .inr ⟨rfl, ?_⟩⟩
  by_cases hlf : (x ++ post).head? = some '\n'
  · obtain ⟨rest, hrest⟩ : ∃ rest, x ++ post = "\n" ++ rest := ⟨_, List.eq_cons_of_mem_head? hlf⟩
    refine refuses_cat_cons.2 (.inr ⟨"\n", rest, d, hrest, takes_lf.2 ⟨rfl, rfl⟩, refuses_cat_cons.2 (.inl ?_)⟩)
    refine refuses_tbs.2 ⟨fun hpre => hlabel ?_, rfl⟩
    rwa [hrest, labelled, List.append_nil, List.prefix_append_right_inj]
  · exact refuses_cat_cons.2 (.inl (refuses_lf.2 ⟨hlf, rfl⟩))

/-- **A line that may be absent,** as it is put there: it is its own, or its label does not stand where it would be. -/
theorem takes_optional_intro [l.Exact] {label field : Text} {v : Option Text} {d₁ : MessageCapture}
    (hsome : ∀ t ∈ v, l.Takes (.rnm field) (pre ++ labelled label []) t (x ++ post) d d₁) (hnone : v = none → d₁ = d)
    (hlabel : ¬ labelled label [] <+: x ++ post)
    (h : l.Takes (.cat es) (pre ++ optionalPart (labelled label) v) x post d₁ d') :
    l.Takes (.cat (Rules.optionalLine label field :: es)) pre (optionalPart (labelled label) v ++ x) post d d' := by
  cases v with
  | some t => exact takes_optional_some (hsome t rfl) h
  | none =>
    obtain rfl := hnone rfl
    rw [optionalPart, List.append_nil] at h
    exact takes_optional_none hlabel h

end
end Lexicon
end SignIn
