import SignIn.Proofs.Match.Reach
import SignIn.Proofs.Message.Faults
import SignIn.Proofs.Rules.Total
/-!
# Where the structure of a message ends

A text whose structure does not match is refused at the place that the match reached.  That place is the furthest end of
an operator that succeeded outside lookahead, and it is told in bytes: it stands between two characters of the text, be
they of how many bytes they may (`reach_furthest`).
-/
namespace SignIn

theorem ofParsed_eq_malformed {input : Array Char} {parsed : Parsed MessageCapture Unit} {offset : Nat}
    (h : Fields.ofParsed input parsed = .error (.malformed offset)) :
    ∃ report, parsed.result = .ok report ∧ offset = byteOffset input report.reach := by
  unfold Fields.ofParsed at h
  split at h
  · cases h
  · cases h
  · rename_i report hresult _
    split at h
    · cases h
    · cases h
      exact ⟨report, hresult, rfl⟩

/-- **What a match reached is the furthest that any success reached.**  For every grammar, callbacks, start rule and input,
and whoever watches, a match that comes to its end reports as reached the greatest offset at which an operator outside
lookahead ended that succeeded, or 0 if none did.  And a text that is refused for its structure is refused between two of
its characters: before that place are as many characters as the structural rules reached, and the bytes of these are the
offset that is told. -/
theorem reach_furthest :
    (∀ {D σ : Type} {rules : List (Text × List Opcode)} {udts : List (Text × Bool)} {m : Matcher D},
      Grammar.ofTables rules udts = .ok m.grammar → ∀ (watch : Watcher σ) (start : Text) (input : Array Char) (data : D)
      (seen : σ),
      (∀ report, (m.parseWith watch start input data seen).result = .ok report →
        report.reach = furthest (m.parseWith .record start input data []).seen) ∧
      ∀ id, m.grammar.ruleId? start = some id → ∀ depth report,
        (m.parseFrom watch depth id input data seen).result = .ok report →
          report.reach = furthest (m.parseFrom .record depth id input data []).seen) ∧
    ∀ text policy offset, Message.parse text policy = .error (.malformed offset) →
      ∃ before after, text = before ++ after ∧ offset = utf8Length before ∧
        before.length = furthest (messageMatcher.parseWith .record Rules.firstPass text.toArray .empty []).seen := by
  have hnamed : ∀ {D σ : Type} {m : Matcher D}, m.grammar.WellFormed → ∀ {watch : Watcher σ} {start : Text}
      {input : Array Char} {data : D} {seen : σ} {report : MatchReport},
      (m.parseWith watch start input data seen).result = .ok report → report.reach ≤ input.size ∧
        report.reach = furthest (m.parseWith .record start input data []).seen := by
    intro D σ m hg watch start input data seen report h
    obtain ⟨id, hid, hbound, heq⟩ := Matcher.parseWith_eq_ok h
    have hlt := Grammar.ruleId?_lt hid
    rw [heq] at h
    have hconsistent := Matcher.parseFrom_consistent hg hlt h
    refine ⟨hconsistent.length ▸ hconsistent.reach_le, ?_⟩
    rw [Matcher.reach_eq_furthest hg hlt h, Matcher.parseWith]
    simp only [hid, hbound]
  refine ⟨fun {D σ rules udts m} htables watch start input data seen => ?_, fun text policy offset h => ?_⟩
  · have hg := Grammar.wellFormed_ofTables htables
    exact ⟨fun report h => (hnamed hg h).2,
      fun id hid depth report h => Matcher.reach_eq_furthest hg (Grammar.ruleId?_lt hid) h⟩
  · obtain ⟨report, hresult, rfl⟩ := ofParsed_eq_malformed ((parse_eq_unless_field (by simp)).1 h)
    have hg : messageMatcher.grammar.WellFormed := messageMatcher_bundles.1 ▸ bundledGrammar_wellFormed
    obtain ⟨hle, hreach⟩ := hnamed hg hresult
    refine ⟨text.take report.reach, text.drop report.reach, (List.take_append_drop _ _).symm, ?_, ?_⟩
    · rw [byteOffset, phraseText_eq, List.drop_zero, List.toList_toArray]
    · rw [← hreach, List.length_take]
      exact Nat.min_eq_left (by simpa using hle)

/-- Tables of a rule that reads three letters and then one more. -/
def lettersTables : List (Text × List Opcode) × List (Text × Bool) := ([("letters", [.cat [1, 2], .tbs "abc", .tbs "x"])], [])

/-- The matcher of that rule, without callbacks. -/
def lettersMatcher : Matcher Unit := .bare ⟨#[⟨"letters", #[.cat [1, 2], .tbs "abc", .tbs "x"]⟩], #[]⟩

theorem reach_furthest_letters :
    Grammar.ofTables lettersTables.1 lettersTables.2 = .ok lettersMatcher.grammar ∧
    (lettersMatcher.parse "letters" #['a', 'b', 'c', 'y'] ()).result = .ok ⟨false, .noMatch, 4, 0, 3, 3, 4⟩ ∧
    3 = furthest (lettersMatcher.parseWith .record "letters" #['a', 'b', 'c', 'y'] () []).seen :=
  have hg : Grammar.ofTables lettersTables.1 lettersTables.2 = .ok lettersMatcher.grammar := rfl
  have hresult : (lettersMatcher.parse "letters" #['a', 'b', 'c', 'y'] ()).result =
    .ok ⟨false, .noMatch, 4, 0, 3, 3, 4⟩ := rfl
  ⟨hg, hresult, (reach_furthest.1 hg Watcher.silent "letters" #['a', 'b', 'c', 'y'] () ()).1 _ hresult⟩

end SignIn
