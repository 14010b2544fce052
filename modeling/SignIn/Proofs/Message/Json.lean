import SignIn.Message.Json
import SignIn.Proofs.Json.Layouts
/-!
# Messages read back from their records

A message is written as the record of its fields and read back by its keys.  Reading goes member by member, and what
holds between the members is that the draft knows the fields that were passed (`Draft.Lacks`): a field that was written
is known by its value, and one that was left out may be absent and stands for the value it had.
-/
namespace SignIn

open Json (Layout Inverts EndsNumber isBlank quoted skipBlanks)

/-! ## Fields -/

theorem ofKey?_key (f : Field) : Field.ofKey? f.key = some f := by
  cases f <;> decide

/-- **A value that was written is read back as the field asks.** -/
theorem inverts_read {f : Field} {v : f.Value} {j : Json.Value} (hj : f.toJson? v = some j) (l : Layout) (depth : Nat) :
    Inverts f.read (j.text l depth) v := by
  have hquoted (s : Text) : ∃ c w, quoted s = c :: w ∧ c ≠ 'n' ∧ isBlank c = false :=
    ⟨'"', _, rfl, by decide, rfl⟩
  -- a field of text asks for a string, one that may be absent for a string or null
  cases f with
  | domain | address | uri | nonce | issuedAt =>
    cases hj
    exact Json.inverts_readText v
  | scheme | statement | expirationTime | notBefore | requestId =>
    obtain ⟨s, rfl, rfl⟩ := Option.map_eq_some_iff.1 hj
    exact (Json.inverts_readText s).readNullable (hquoted s)
  | version =>
    cases hj
    exact Json.inverts_readInteger (by decide) _ v
  | chainId =>
    cases hj
    intro t r ht hr
    exact (congrArg _ ht).trans (Json.readBounded_decimal v hr)
  | resources =>
    obtain ⟨ss, rfl, rfl⟩ := Option.map_eq_some_iff.1 hj
    refine (Json.inverts_readTexts l depth ss).readNullable ?_
    obtain ⟨pad, -, heq⟩ := Json.enclosed_eq l '[' ']' depth (ss.map quoted)
    exact ⟨'[', _, heq, by decide, rfl⟩

/-- **A field that is left out stands for the value it had.** -/
theorem absent?_of_toJson? {f : Field} {v : f.Value} (hv : f.toJson? v = none) : f.absent? = some v := by
  cases f with
  | domain | address | uri | nonce | issuedAt | version | chainId => cases hv
  | scheme | statement | expirationTime | notBefore | requestId | resources =>
    rw [Option.map_eq_none_iff.1 hv]
    rfl

/-! ## Drafts -/

/-- **A draft lacks some fields of a message:** of these it knows nothing, and of the others all there is to know. -/
structure Draft.Lacks (d : Draft) (m : Message) (fs : List Field) : Prop where
  unknown : ∀ f ∈ fs, d f = none
  known : ∀ f, f ∉ fs → d.require f = .ok (m.get f)

namespace Draft.Lacks

variable {d : Draft} {m : Message} {f : Field} {fs : List Field}

theorem empty (m : Message) : Draft.empty.Lacks m Field.all where
  unknown _ _ := rfl
  known f hf := absurd (by cases f <;> decide) hf

/-- A field that is set is known. -/
theorem set (h : d.Lacks m (f :: fs)) (hf : f ∉ fs) : (d.set f (m.get f)).Lacks m fs where
  unknown g hg := by
    have hne : f ≠ g := fun heq => hf (heq ▸ hg)
    rw [Draft.set, dif_neg hne]
    exact h.unknown g (List.mem_cons_of_mem _ hg)
  known g hg := by
    by_cases heq : f = g
    · subst heq
      simp only [Draft.require, Draft.set, dif_pos]
      rfl
    · have hcons : g ∉ f :: fs := fun hmem => (List.mem_cons.1 hmem).elim (fun h => heq h.symm) hg
      have hknown := h.known g hcons
      rwa [Draft.require, Draft.set, dif_neg heq]

/-- A field that was left out is known as it is. -/
theorem skip (h : d.Lacks m (f :: fs)) (hf : f.toJson? (m.get f) = none) : d.Lacks m fs where
  unknown g hg := h.unknown g (List.mem_cons_of_mem _ hg)
  known g hg := by
    by_cases heq : g = f
    · subst heq
      rw [Draft.require, h.unknown g List.mem_cons_self, absent?_of_toJson? hf]
      rfl
    · exact h.known g fun hmem => (List.mem_cons.1 hmem).elim heq hg

/-- **A draft that lacks nothing is the message.** -/
theorem message (h : d.Lacks m []) : d.message = .ok m := by
  have hknown : ∀ f, d.require f = .ok (m.get f) := fun f => h.known f List.not_mem_nil
  simp only [Draft.message, hknown]
  rfl

end Draft.Lacks

/-! ## Members -/

/-- **A member as it is written.** -/
def Json.Layout.member (l : Layout) (p : Text × Json.Value) : Text := quoted p.1 ++ l.colon ++ p.2.text l 1

theorem text_record (l : Layout) (r : Json.Record) : Json.Record.text l r = l.enclosed '\x7b' '\x7d' 0 (r.map l.member) := rfl

/-- A value begins with no blank. -/
theorem exists_text_eq_cons (l : Layout) (depth : Nat) (j : Json.Value) :
    ∃ c w, j.text l depth = c :: w ∧ isBlank c = false := by
  cases j with
  | number n =>
    obtain ⟨c, w, hw, hdigit, -⟩ := Json.exists_decimal_eq_cons n
    exact ⟨c, w, hw, Json.isBlank_of_isDigit hdigit⟩
  | truth b => cases b <;> exact ⟨_, _, rfl, rfl⟩
  | string s => exact ⟨'"', _, rfl, rfl⟩
  | strings ss =>
    obtain ⟨pad, -, heq⟩ := Json.enclosed_eq l '[' ']' depth (ss.map quoted)
    exact ⟨'[', _, heq, rfl⟩

/-- A colon is read, and the blank behind it is left. -/
theorem readColon_colon (l : Layout) (t : Text) :
    ∃ pad, (∀ c ∈ pad, isBlank c = true) ∧ Json.readColon (l.colon ++ t) = .ok (pad ++ t) := by
  cases l with
  | compact => exact ⟨[], by simp, rfl⟩
  | pretty => exact ⟨[' '], by simp [isBlank], rfl⟩

/-- A number ends before the next member, and before the end of its object. -/
theorem endsNumber_listing {l : Layout} {depth : Nat} {pad : Text} (hpad : ∀ c ∈ pad, isBlank c = true) (xs : List Text)
    (r : Text) : EndsNumber (l.listing depth false xs ++ (pad ++ '\x7d' :: r)) := by
  have hblank : ∀ c, isBlank c = true → c.isDigit = false ∧ c ≠ '.' ∧ c ≠ 'e' ∧ c ≠ 'E' := by
    intro c hc
    simp only [isBlank, Bool.or_eq_true, beq_iff_eq] at hc
    rcases hc with ((rfl | rfl) | rfl) | rfl <;> decide
  intro c t ht
  cases xs with
  | cons x xs =>
    cases (List.cons.inj ht).1
    decide
  | nil =>
    cases pad with
    | nil =>
      cases (List.cons.inj ht).1
      decide
    | cons b pad =>
      rw [← (List.cons.inj ht).1]
      exact hblank b (hpad b List.mem_cons_self)

section

variable {l : Layout} {pad : Text} {d : Draft} {m : Message} {first : Bool}

/-- **A member is read into the draft.** -/
theorem readMembers_member (hpad : ∀ c ∈ pad, isBlank c = true) {f : Field} {v : f.Value} {j : Json.Value}
    (hd : d f = none) (hj : f.toJson? v = some j) (xs : List Text) (r : Text) (fuel : Nat) :
    Draft.readMembers (fuel + 1) first d (l.listing 1 first (l.member (f.key, j) :: xs) ++ (pad ++ '\x7d' :: r)) =
      Draft.readMembers fuel false (d.set f v) (l.listing 1 false xs ++ (pad ++ '\x7d' :: r)) := by
  have hkey : l.member (f.key, j) = '"' :: (f.key.flatMap Json.escapedChar ++ '"' :: (l.colon ++ j.text l 1)) := by
    rw [Json.Layout.member, List.append_assoc, Json.quoted_append]
  obtain ⟨gap, hgap, hcolon⟩ := readColon_colon l (j.text l 1 ++ (l.listing 1 false xs ++ (pad ++ '\x7d' :: r)))
  have hstart : skipBlanks (gap ++ (j.text l 1 ++ (l.listing 1 false xs ++ (pad ++ '\x7d' :: r)))) =
      j.text l 1 ++ (l.listing 1 false xs ++ (pad ++ '\x7d' :: r)) := by
    obtain ⟨c, w, hw, hc⟩ := exists_text_eq_cons l 1 j
    rw [Json.skipBlanks_append hgap, hw, List.cons_append, Json.skipBlanks_cons hc]
  have hvalue := inverts_read hj l 1 _ _ hstart (endsNumber_listing hpad xs r)
  rw [Draft.readMembers, hkey, Json.nextKey_listing]
  simp only [bind, Except.bind, List.append_assoc, List.cons_append, Json.readString_quoted, ofKey?_key, hd,
    Option.isSome_none, Bool.false_eq_true, if_false, hcolon, hvalue]

/-- **The members of a message are read into the draft,** whatever of them was written: then it lacks nothing. -/
theorem readMembers_listing (hpad : ∀ c ∈ pad, isBlank c = true) (r : Text) {fs : List Field} (hfs : fs.Nodup)
    (hd : d.Lacks m fs) {items : List Text}
    (hitems : items = (fs.filterMap fun f => (f.toJson? (m.get f)).map fun v => (f.key, v)).map l.member) {fuel : Nat}
    (hfuel : items.length < fuel) :
    ∃ d', Draft.readMembers fuel first d (l.listing 1 first items ++ (pad ++ '\x7d' :: r)) = .ok (d', pad ++ '\x7d' :: r) ∧
      d'.Lacks m [] := by
  induction fs generalizing first d items fuel with
  | nil =>
    obtain ⟨fuel, rfl⟩ := Nat.exists_eq_add_one.2 (Nat.zero_lt_of_lt hfuel)
    refine ⟨d, ?_, hd⟩
    rw [hitems, List.filterMap_nil, List.map_nil, Json.Layout.listing, List.nil_append, Draft.readMembers,
      Json.nextKey_end hpad]
    rfl
  | cons f fs ih =>
    rw [List.nodup_cons] at hfs
    rcases hj : f.toJson? (m.get f) with - | j
    · rw [List.filterMap_cons_none (by rw [hj]; rfl)] at hitems
      exact ih hfs.2 (hd.skip hj) hitems hfuel
    · rw [List.filterMap_cons_some (by rw [hj]; rfl), List.map_cons] at hitems
      subst hitems
      obtain ⟨fuel, rfl⟩ := Nat.exists_eq_add_one.2 (Nat.zero_lt_of_lt hfuel)
      rw [readMembers_member hpad (hd.unknown f List.mem_cons_self) hj]
      exact ih hfs.2 (hd.set hfs.1) rfl (Nat.lt_of_succ_lt_succ hfuel)

end

/-- **A message is read back from its record,** and nothing is read with it. -/
theorem read_record (m : Message) (l : Layout) (r : Text) : Message.read (m.record.text l ++ r) = .ok (m, r) := by
  obtain ⟨pad, hpad, heq⟩ := Json.enclosed_eq l '\x7b' '\x7d' 0 (m.record.map l.member)
  have hfuel : (m.record.map l.member).length <
      (l.listing 1 true (m.record.map l.member) ++ (pad ++ '\x7d' :: r)).length + 1 := by
    have hlength := Json.length_le_listing l 1 true (m.record.map l.member) fun x hx => by
      obtain ⟨p, -, rfl⟩ := List.mem_map.1 hx
      exact List.cons_ne_nil '"' _
    rw [List.length_append]
    omega
  have hread : ∃ d, Draft.readMembers ((l.listing 1 true (m.record.map l.member) ++ (pad ++ '\x7d' :: r)).length + 1) true
      .empty (l.listing 1 true (m.record.map l.member) ++ (pad ++ '\x7d' :: r)) = .ok (d, pad ++ '\x7d' :: r) ∧
        d.Lacks m [] :=
    readMembers_listing hpad r (by decide) (.empty m) rfl hfuel
  obtain ⟨d, hread, hd⟩ := hread
  have hend : Json.pastBracket '\x7d' (pad ++ '\x7d' :: r) = r := by
    rw [Json.pastBracket, Json.skipBlanks_append hpad, Json.skipBlanks_cons rfl]
    exact if_pos rfl
  have htext : m.record.text l ++ r = '\x7b' :: (l.listing 1 true (m.record.map l.member) ++ (pad ++ '\x7d' :: r)) := by
    rw [text_record, heq, List.cons_append, List.append_assoc, List.append_assoc, List.singleton_append]
  rw [htext, Message.read, Json.skipBlanks_cons rfl]
  simp only [bind, Except.bind, hread, hend, hd.message, pure, Except.pure]

/-- **A message is read back from its JSON text,** whether that is on one line or spread over several. -/
theorem ofJson_text (m : Message) (l : Layout) : Message.ofJson (m.record.text l) = .ok m := by
  have hread := read_record m l []
  rw [List.append_nil] at hread
  rw [Message.ofJson, hread]
  rfl

end SignIn
