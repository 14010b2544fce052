import SignIn.Proofs.Uri.Authority
/-!
# What is accepted as a URI

The rules of URIs commit early: each takes as much as it can and is never asked again.  Rule by rule it is shown that this
loses no URI of the grammar, before whatever may follow the rule (`Lexicon.Recognizes`), and so a text is split as a URI
if and only if it is one (`uri_accepted_iff`).
-/
namespace SignIn

open Computability Lexicon Production

variable {y z t : Text}

/-! ## Which path is meant -/

/-- Segments of which the first is not empty, or none at all, do not begin with a slash. -/
theorem apart_slash (hy : y ∈ optional (segmentNz * segments)) (ht : HeadIn "?#" t) : Apart (word ['/']) (y ++ t) := by
  rintro x rfl ⟨rest, hrest⟩
  rcases hy with rfl | hy
  · exact absurd (ht '/' (by rw [← show _ = t from hrest]; rfl)) (by simp)
  · have hopens : Opens (fun c => IsPathChar c ∨ c = '%') (segmentNz * segments) := by
      rw [segmentNz, pchar_eq]
      exact opens_encoded.mul.mul
    obtain ⟨c, y, rfl, hc⟩ := hopens y hy
    obtain ⟨rfl, -⟩ := List.cons.inj hrest
    exact pathChar_outside '/' hc (by simp)

theorem mem_rootless (hz : z ∈ pathRootless + pathEmpty) : z ∈ optional (segmentNz * segments) := hz.symm

/-- **Two slashes begin an authority:** no path begins with them. -/
theorem apart_slashes (hz : z ∈ pathAbsolute + (pathRootless + pathEmpty)) (ht : HeadIn "?#" t) :
    Apart (word ['/', '/']) (z ++ t) := by
  rintro x rfl ⟨rest, hrest⟩
  rcases hz with hz | hz
  · obtain ⟨_, rfl, y, hy, rfl⟩ := Language.mem_mul.1 hz
    obtain ⟨-, hrest⟩ := List.cons.inj hrest
    exact apart_slash hy ht _ rfl ⟨rest, hrest⟩
  · exact apart_slash (mem_rootless hz) ht _ rfl ⟨'/' :: rest, hrest⟩

theorem recognizes_hierPart : fieldLexicon.Recognizes (.rnm "hier-part") hierPart (HeadIn "?#") := by
  have hafter := recognizes_cat_cons recognizes_authority recognizes_pathAbempty.cat_one fun _ hz _ ht => headIn_segments hz ht
  have hnet : fieldLexicon.Recognizes (.cat [.tbs "//", .rnm "authority", .rnm "path-abempty"])
      (word ['/', '/'] * (authority * pathAbempty)) (HeadIn "?#") :=
    recognizes_cat_cons (E := fun _ => True) (token_tbs "//").recognizes hafter fun _ _ _ _ => trivial
  have hrootless : fieldLexicon.Recognizes (.alt [.rnm "path-rootless", .rnm "path-empty"]) (pathRootless + pathEmpty)
      (HeadIn "?#") := by
    refine recognizes_alt_cons recognizes_pathRootless recognizes_pathEmpty.alt_one (fun _ => id) ?_
    rintro z rfl t ht
    exact (declines_segmentNz (ht.mono (by simp))).cat.rnm_judged pathRootless_defines (Callback.judges_onMatch _)
  have hpaths : fieldLexicon.Recognizes (.alt [.rnm "path-absolute", .rnm "path-rootless", .rnm "path-empty"])
      (pathAbsolute + (pathRootless + pathEmpty)) (HeadIn "?#") :=
    recognizes_alt_cons recognizes_pathAbsolute hrootless (fun _ => id) fun z hz t ht =>
      ((token_tbs "/").declines (apart_slash (mem_rootless hz) ht)).cat.rnm_judged pathAbsolute_defines
        (Callback.judges_onMatch _)
  have hbody := recognizes_alt_cons hnet hpaths (fun _ => id) fun z hz t ht =>
    ((token_tbs "//").declines (apart_slashes hz ht)).cat
  have heq : hierPart = word ['/', '/'] * (authority * pathAbempty) + (pathAbsolute + (pathRootless + pathEmpty)) := by
    rw [hierPart, mul_assoc, add_assoc, add_assoc]
  rw [heq]
  exact hbody.rnm (defines_unnoted (uri_rule "hier-part" 1 rfl) (by simp [unnotedNames]))

/-- An option after a delimiter begins with it, or leaves what follows. -/
theorem headIn_option {k : Char} {S T : Text} {L : Language Char} (hz : z ∈ optional (word [k] * L)) (ht : HeadIn T t)
    (hk : k ∈ S) (hTS : T ⊆ S) : HeadIn S (z ++ t) := by
  rcases hz with rfl | hz
  · exact ht.mono hTS
  · obtain ⟨_, rfl, _, -, rfl⟩ := Language.mem_mul.1 hz
    exact headIn_cons hk

theorem recognizes_uri : fieldLexicon.Recognizes (.rnm "URI") uri (HeadIn []) := by
  have hfragment : fieldLexicon.Recognizes (.opt (.cat [.tbs "#", .rnm "fragment"])) (optional (word ['#'] * fragment))
      (HeadIn []) :=
    Recognizes.opt (recognizes_cat_cons (E := fun _ => True) (token_tbs "#").recognizes recognizes_fragment.cat_one
      fun _ _ _ _ => trivial) (fun _ => id) fun t ht => declines_literal (k := '#') (by simp) ht
  have hquery : fieldLexicon.Recognizes (.opt (.cat [.tbs "?", .rnm "query"])) (optional (word ['?'] * query)) (HeadIn "#") :=
    Recognizes.opt (recognizes_cat_cons (E := fun _ => True) (token_tbs "?").recognizes recognizes_query.cat_one
      fun _ _ _ _ => trivial) (fun _ => id) fun t ht => declines_literal (k := '?') (by simp) ht
  have hend := recognizes_cat_cons hquery hfragment.cat_one fun z hz t ht => headIn_option hz ht (by simp) (by simp)
  have hhier := recognizes_cat_cons recognizes_hierPart hend fun z hz t ht => by
    obtain ⟨q, hq, f, hf, rfl⟩ := Language.mem_mul.1 hz
    rw [List.append_assoc]
    exact headIn_option hq (headIn_option (S := "#") hf ht (by simp) (by simp)) (by simp) (by simp)
  have hcolon : fieldLexicon.Recognizes (.cat (.tbs ":" :: _)) (word [':'] * (hierPart * _)) (HeadIn []) :=
    recognizes_cat_cons (E := fun _ => True) (token_tbs ":").recognizes hhier fun _ _ _ _ => trivial
  have hbody := recognizes_cat_cons recognizes_scheme hcolon fun z hz t _ => by
    obtain ⟨_, rfl, _, -, rfl⟩ := Language.mem_mul.1 hz
    exact headIn_cons (by simp)
  have heq : uri = scheme * (word [':'] * (hierPart * (optional (word ['?'] * query) * optional (word ['#'] * fragment)))) := by
    rw [uri, mul_assoc, mul_assoc, mul_assoc]
  rw [heq]
  refine recognizes_noted (f := UriCapture.onUri) hbody (uri_rule "URI" 0 rfl) (by simp [UriCapture.actions])
    fun x hx input o d => ?_
  have hne : x ≠ [] := by
    rintro rfl
    obtain ⟨s, -, y, hy, hnil⟩ := Language.mem_mul.1 hx
    obtain ⟨_, rfl, z, -, rfl⟩ := Language.mem_mul.1 hy
    simp at hnil
  have hmatched : (Phrase.ofLength x.length).state = .matched := by simpa using hne
  simp only [UriCapture.onUri, hmatched]

/-- **A text is split as a URI if and only if it is one,** by the grammar, in which nothing is ordered or greedy. -/
theorem uri_accepted_iff (t : Text) : (splitUri? t).isSome = true ↔ t ∈ uri := by
  rw [splitUri?_isSome]
  exact recognizes_uri [] t [] .empty headIn_nil

end SignIn
