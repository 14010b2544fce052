import SignIn.Match.Trace
import SignIn.Proofs.Match.Tallies
/-!
# Watchers used again

The start of a match makes a trace and a tree anew, whatever a match before it has left behind, be it operators that
were entered and never left.  A tally is not made anew; but it only ever adds.  So after any history, a match that comes
to its end shows in the trace and in the tree what it would have shown to new ones, and adds to the tally what a new one
would have counted (`watchers_reused`).
-/
namespace SignIn

/-- **Watchers may be used again after anything.**  Every watched match is an attempt to some depth.  Whatever was attempted
before, a match comes out as with new watchers.
If it is refused, nothing has changed.  Otherwise, unless it is given up, the trace and the tree are those of new watchers,
and every count is the sum of what was counted before and what a new tally counts. -/
theorem watchers_reused {D : Type} {rules : List (Text × List Opcode)} {udts : List (Text × Bool)} {m : Matcher D}
    (htables : Grammar.ofTables rules udts = .ok m.grammar) (limit : Nat) (s : Selection) (history : List (Attempt D))
    (a : Attempt D) :
    let watch := (Trace.watch m.grammar limit).both ((Tree.watch s).both Tally.watch)
    let new := (Trace.empty, Tree.empty, Tally.empty m.grammar)
    let before := m.attemptAll watch history new
    let after := m.attempt watch a before
    let alone := m.attempt watch a new
    (∀ start input data seen,
      m.parseWith watch start input data seen = m.attempt watch ⟨start, input, data, m.depthFor input⟩ seen) ∧
    after.result = alone.result ∧ after.data = alone.data ∧
    (∀ e, after.result = .error e → e.Refuses → after.data = a.data ∧ after.seen = before) ∧
    ((∀ e, after.result = .error e → ¬ e.Refuses ∧ e ≠ .tooDeep) →
      after.seen.1 = alone.seen.1 ∧ after.seen.2.1 = alone.seen.2.1 ∧
      after.seen.2.2 = before.2.2.add alone.seen.2.2) := by
  intro watch new before after alone
  have hg := Grammar.wellFormed_ofTables htables
  have hsame := m.indifferent_attempt hg a
  refine ⟨m.parseWith_eq_attempt, hsame.result watch watch before new, hsame.data watch watch before new,
    fun e he hrefuses => Matcher.attempt_of_refused htables he hrefuses, fun hends => ?_⟩
  obtain ⟨es, hevents, -⟩ := Matcher.events_of_begun (a := a) hg fun e he =>
    hends e ((hsame.result watch .record before []).trans he)
  have hseen : ∀ x : Trace × Tree × Tally, (m.attempt watch a x).seen =
      ((m.events a).foldl (Trace.watch m.grammar limit) x.1, (m.events a).foldl (Tree.watch s) x.2.1,
        (m.events a).foldl Tally.watch x.2.2) := by
    intro x
    rw [Matcher.attempt_seen hg, Watcher.foldl_both, Watcher.foldl_both]
  have hsizes : before.2.2.rules.size = m.grammar.rules.size ∧ before.2.2.udts.size = m.grammar.udts.size := by
    refine Matcher.attemptAll_keeps (P := fun x : Trace × Tree × Tally => x.2.2.rules.size = m.grammar.rules.size ∧
      x.2.2.udts.size = m.grammar.udts.size) hg (fun _ h => h) (fun {x e} _ h => ?_) history
      ⟨Array.size_replicate, Array.size_replicate⟩
    exact ⟨(Tally.size_rules_watch _ e).trans h.1, (Tally.size_udts_watch _ e).trans h.2⟩
  refine ⟨?_, ?_, ?_⟩
  -- what the trace and the tree were is forgotten at the first event, the start
  · rw [hseen, hseen, hevents]
    rfl
  · rw [hseen, hseen, hevents]
    rfl
  · rw [hseen, hseen, ← Tally.foldl_watch_add, Tally.add_empty hsizes.1 hsizes.2]

theorem watchers_reused_greedy :
    Grammar.ofTables greedyTables.1 greedyTables.2 = .ok greedyMatcher.grammar ∧
    let watch := (Trace.watch greedyMatcher.grammar 100).both
      ((Tree.watch (.everything greedyMatcher.grammar)).both Tally.watch)
    let new := (Trace.empty, Tree.empty, Tally.empty greedyMatcher.grammar)
    let before := greedyMatcher.attemptAll watch [⟨"greedy", #['a', 'b'], 0, 9⟩] new
    let after := greedyMatcher.attempt watch ⟨"greedy", #['a'], 0, 9⟩ before
    let alone := greedyMatcher.attempt watch ⟨"greedy", #['a'], 0, 9⟩ new
    (greedyMatcher.attempt watch ⟨"greedy", #['a', 'b'], 0, 9⟩ new).result = .error (.phraseOverrun "letter" 5 1) ∧
    after.result = .ok ⟨true, .matched, 1, 1, 1, 3, 3⟩ ∧ after.seen.1.lines.length = 6 ∧
    after.seen.1 = alone.seen.1 ∧ after.seen.2.1 = alone.seen.2.1 ∧ after.seen.2.2 = before.2.2.add alone.seen.2.2 :=
  have hg : Grammar.ofTables greedyTables.1 greedyTables.2 = .ok greedyMatcher.grammar := rfl
  have h := watchers_reused hg 100 (.everything greedyMatcher.grammar) [⟨"greedy", #['a', 'b'], 0, 9⟩]
    ⟨"greedy", #['a'], 0, 9⟩
  ⟨hg, rfl, rfl, rfl, h.2.2.2.2 (by intro e he; cases he)⟩

end SignIn
