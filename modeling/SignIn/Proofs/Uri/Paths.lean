import SignIn.Proofs.Uri.Address
/-!
# Paths, queries and schemes

The rules of URIs whose words are told from what follows by the next character: paths, queries and fragments, which are
runs of path characters between delimiters, and schemes.
-/
namespace SignIn

open Computability Lexicon Production

/-- **A rule whose callback lets all its words pass** recognizes what its expression does. -/
theorem recognizes_noted {name : Text} {body : Expr} {L : Language Char} {E : Text → Prop} {f : Callback UriCapture}
    (hbody : fieldLexicon.Recognizes body L E) (hrule : (name, body) ∈ Rules.uri) (hf : (name, f) ∈ UriCapture.actions)
    (hpass : ∀ x ∈ L, ∀ input o d, (f (.ofLength x.length) input o d).1 = .ofLength x.length) :
    fieldLexicon.Recognizes (.rnm name) L E :=
  hbody.rnm_noted (defines_noted hrule hf) (judges_uri _ hf) hpass

/-! ## Characters -/

theorem token_pctEncoded : fieldLexicon.Token (.rnm "pct-encoded") pctEncoded := by
  have hbody : fieldLexicon.Token (.cat [.tbs "%", Rules.hexDigit, Rules.hexDigit]) (word "%" * (hexDigit * (hexDigit * 1))) :=
    token_cat_cons (token_tbs "%") (token_cat_cons class_hexDigit.token (token_cat_cons class_hexDigit.token token_cat_nil))
  rw [mul_one, ← mul_assoc] at hbody
  exact hbody.rnm (defines_unnoted (List.mem_append_right _ pctEncoded_rule) (by simp [unnotedNames]))

/-- **A choice of characters and of octets** in hexadecimal digits, wherever these stand in it. -/
theorem token_encoded {P Q R : Char → Prop} {es fs : List Expr} (hP : fieldLexicon.Class (.alt es) P)
    (hQ : fieldLexicon.Class (.alt fs) Q) (hR : ∀ c, R c ↔ P c ∨ Q c) (hPQ : ∀ c, P c → ¬ Q c) (hpct : ¬ R '%') :
    fieldLexicon.Token (.alt (es ++ ([.rnm "pct-encoded"] ++ fs))) (encoded R) := by
  rw [hR, not_or] at hpct
  have hrest : fieldLexicon.Token (.alt ([.rnm "pct-encoded"] ++ fs)) (pctEncoded + oneOf Q) :=
    token_alt_append token_pctEncoded.alt_one hQ.token opens_pctEncoded opens_oneOf (by rintro c rfl; exact hpct.2)
  have hall := token_alt_append hP.token hrest opens_oneOf
    ((opens_pctEncoded.mono fun _ => Or.inl).add (opens_oneOf.mono fun _ => Or.inr)) fun c hc hother => by
      rcases hother with rfl | hother
      · exact hpct.1 hc
      · exact hPQ c hc hother
  have heq : oneOf P + (pctEncoded + oneOf Q) = encoded R := by
    rw [← add_assoc, ← encoded, encoded_add]
    exact encoded_congr fun c => (hR c).symm
  rwa [heq] at hall

theorem token_pchar : fieldLexicon.Token (.rnm "pchar") (encoded IsPathChar) := by
  refine (token_encoded (class_ranges [(97, 122), (64, 90), (48, 59), (33, 33), (36, 36), (38, 46), (61, 61), (95, 95),
    (126, 126)]) class_alt_nil (fun c => ?_) (fun _ _ => id) ?_).rnm
      (defines_unnoted (List.mem_append_right _ pchar_rule) (by simp [unnotedNames]))
  · rw [isPathChar_iff]
    simp
    omega
  · rw [isPathChar_iff]
    decide

/-! ## Paths -/

/-- Where no character of a path can follow. -/
theorem apart_pchar {S t : Text} (hS : S ⊆ "/?#") (ht : HeadIn S t) : Apart (encoded IsPathChar) t := by
  refine opens_encoded.apart (fun c hc hmem => pathChar_outside c hc ?_) ht
  have hdelim : ("/?#" : Text) ⊆ "/?#[]" := by simp
  exact hdelim (hS hmem)

theorem nil_notMem_pchar : [] ∉ encoded IsPathChar := opens_encoded.nil_notMem

theorem recognizes_segment : fieldLexicon.Recognizes (.rnm "segment") Production.segment (HeadIn "/?#") := by
  have hrule : (("segment" : Text), Expr.star (.rnm "pchar")) ∈ Rules.uri := uri_rule _ 27 rfl
  rw [Production.segment, pchar_eq]
  exact ((Token.star token_pchar nil_notMem_pchar).mono fun t => apart_pchar (List.Subset.refl _)).rnm
    (defines_unnoted hrule (by simp [unnotedNames]))

theorem recognizes_segmentNz : fieldLexicon.Recognizes (.rnm "segment-nz") segmentNz (HeadIn "/?#") := by
  rw [segmentNz, pchar_eq]
  exact ((Token.plus token_pchar nil_notMem_pchar).mono fun t => apart_pchar (List.Subset.refl _)).rnm
    (defines_unnoted (uri_rule "segment-nz" 28 rfl) (by simp [unnotedNames]))

theorem declines_segmentNz {t : Text} (ht : HeadIn "/?#" t) : fieldLexicon.Declines (.rnm "segment-nz") t :=
  ((Token.declines token_pchar (apart_pchar (List.Subset.refl _) ht)).plus (by simp)).rnm
    (defines_unnoted (uri_rule "segment-nz" 28 rfl) (by simp [unnotedNames]))

/-- A literal is not read where another character stands. -/
theorem declines_literal {D : Type} {l : Lexicon D} {es : List Expr} {k : Char} {lit S t : Text} (hk : k ∉ S)
    (ht : HeadIn S t) : l.Declines (.cat (.tbs (k :: lit) :: es)) t :=
  ((token_tbs (k :: lit)).declines (opens_word.apart (by rintro c rfl; exact hk) ht)).cat

theorem recognizes_segments : fieldLexicon.Recognizes Rules.segments segments (HeadIn "?#") := by
  have hround : fieldLexicon.Recognizes (.cat [.tbs "/", .rnm "segment"]) (word ['/'] * Production.segment) (HeadIn "/?#") :=
    recognizes_cat_cons (E := fun _ => True) (token_tbs "/").recognizes recognizes_segment.cat_one fun _ _ _ _ => trivial
  have hopens : Opens (· = '/') (word ['/'] * Production.segment) := opens_word.mul
  refine hround.star hopens.nil_notMem (fun x hx t => ?_) (fun t ht => ht.mono (by simp)) fun t ht =>
    declines_literal (k := '/') (by simp) ht
  obtain ⟨c, y, rfl, rfl⟩ := hopens x hx
  exact headIn_cons (by simp)

/-- Segments end, or begin with a slash. -/
theorem headIn_segments {z t : Text} (hz : z ∈ segments) (ht : HeadIn "?#" t) : HeadIn "/?#" (z ++ t) := by
  obtain ⟨ys, rfl, hys⟩ := hz
  cases ys with
  | nil => exact ht.mono (by simp)
  | cons y ys =>
    obtain ⟨_, rfl, _, -, rfl⟩ := Language.mem_mul.1 (hys y List.mem_cons_self)
    exact headIn_cons (by simp)

theorem recognizes_filled : fieldLexicon.Recognizes (.cat [.rnm "segment-nz", Rules.segments]) (segmentNz * segments)
    (HeadIn "?#") :=
  recognizes_cat_cons recognizes_segmentNz recognizes_segments.cat_one fun _ hz _ ht => headIn_segments hz ht

theorem recognizes_pathAbempty : fieldLexicon.Recognizes (.rnm "path-abempty") pathAbempty (HeadIn "?#") := by
  have hrule : (("path-abempty" : Text), Rules.segments) ∈ Rules.uri := uri_rule _ 3 rfl
  exact recognizes_noted (f := UriCapture.onPath) recognizes_segments hrule (by simp [UriCapture.actions])
    fun _ _ _ _ _ => rfl

theorem pathAbsolute_defines : fieldLexicon.Defines "path-absolute"
    (.cat [.tbs "/", .opt (.cat [.rnm "segment-nz", Rules.segments])]) (some UriCapture.onFilledPath) :=
  defines_noted (by simp [Rules.uri, Rules.uriParts]) (by simp [UriCapture.actions])

theorem recognizes_pathAbsolute : fieldLexicon.Recognizes (.rnm "path-absolute") pathAbsolute (HeadIn "?#") := by
  have hrest : fieldLexicon.Recognizes (.opt (.cat [.rnm "segment-nz", Rules.segments])) (optional (segmentNz * segments))
      (HeadIn "?#") :=
    recognizes_filled.opt (fun _ => id) fun t ht => (declines_segmentNz (ht.mono (by simp))).cat
  have hbody := recognizes_cat_cons (E := fun _ => True) (token_tbs (l := fieldLexicon) "/").recognizes hrest.cat_one
    fun _ _ _ _ => trivial
  exact hbody.rnm_noted pathAbsolute_defines (Callback.judges_onMatch _) fun _ _ _ _ _ => rfl

theorem pathRootless_defines : fieldLexicon.Defines "path-rootless" (.cat [.rnm "segment-nz", Rules.segments])
    (some UriCapture.onFilledPath) :=
  defines_noted (by simp [Rules.uri, Rules.uriParts]) (by simp [UriCapture.actions])

theorem recognizes_pathRootless : fieldLexicon.Recognizes (.rnm "path-rootless") pathRootless (HeadIn "?#") :=
  recognizes_filled.rnm_noted pathRootless_defines (Callback.judges_onMatch _) fun _ _ _ _ _ => rfl

theorem recognizes_pathEmpty : fieldLexicon.Recognizes (.rnm "path-empty") pathEmpty (HeadIn "?#") := by
  have hbody : fieldLexicon.Recognizes (.tls "") 1 (HeadIn "?#") := by
    intro pre x post d _
    simp [takes_tls, foldCase]
  refine recognizes_noted (f := UriCapture.onEmptyPath) hbody (uri_rule "path-empty" 6 rfl) (by simp [UriCapture.actions]) ?_
  rintro x rfl input o d
  rfl

/-! ## Queries, fragments and schemes -/

/-- **What a query and a fragment are made of,** before what cannot go on with it. -/
theorem recognizes_afterPath {S : Text} (hS : S ⊆ "#") : fieldLexicon.Recognizes Rules.afterPath query (HeadIn S) := by
  have hslash : fieldLexicon.Class (.alt [.ch 47, .ch 63]) fun c => c = '/' ∨ c = '?' :=
    Class.congr (class_ranges [(47, 47), (63, 63)]) fun c => by
      simp [← Char.toNat_inj]
      omega
  have hopens : Opens (fun c => c = '/' ∨ c = '?') (oneOf fun c => c = '/' ∨ c = '?') := opens_oneOf
  have hitem : fieldLexicon.Token (.alt ([.rnm "pchar"] ++ [.ch 47, .ch 63]))
      (encoded IsPathChar + oneOf fun c => c = '/' ∨ c = '?') := by
    refine token_alt_append (Token.alt_one token_pchar) hslash.token opens_encoded hopens fun c hc hother => ?_
    refine pathChar_outside c hc ?_
    rcases hother with rfl | rfl <;> simp
  have heq : query = (encoded IsPathChar + oneOf fun c => c = '/' ∨ c = '?')∗ := by
    rw [query, pchar_eq, word_eq_oneOf, word_eq_oneOf, add_assoc, oneOf_add]
  have hall : Opens (fun c => (IsPathChar c ∨ c = '%') ∨ c = '/' ∨ c = '?')
      (encoded IsPathChar + oneOf fun c => c = '/' ∨ c = '?') :=
    (opens_encoded.mono fun _ => Or.inl).add (hopens.mono fun _ => Or.inr)
  rw [heq]
  refine (hitem.star hall.nil_notMem).mono fun t ht => hall.apart (fun c hc hmem => ?_) ht
  obtain rfl : c = '#' := by simpa using hS hmem
  rcases hc with hc | hc
  · exact pathChar_outside '#' hc (by simp)
  · simp at hc

theorem recognizes_query : fieldLexicon.Recognizes (.rnm "query") query (HeadIn "#") := by
  exact recognizes_noted (f := UriCapture.onQuery) (recognizes_afterPath (List.Subset.refl _)) (uri_rule "query" 25 rfl)
    (by simp [UriCapture.actions]) fun _ _ _ _ _ => rfl

theorem recognizes_fragment : fieldLexicon.Recognizes (.rnm "fragment") fragment (HeadIn []) := by
  exact recognizes_noted (f := UriCapture.onFragment) (recognizes_afterPath (List.nil_subset _)) (uri_rule "fragment" 26 rfl)
    (by simp [UriCapture.actions]) fun _ _ _ _ _ => rfl

theorem recognizes_scheme : fieldLexicon.Recognizes (.rnm "scheme") scheme (HeadIn ":") := by
  have heq : scheme = oneOf (·.isAlpha = true) * (oneOf fun c => c.isAlphanum = true ∨ c ∈ ("+-." : Text))∗ := by
    rw [scheme, alpha, digit, oneOf_add, word_eq_oneOf, word_eq_oneOf, word_eq_oneOf, oneOf_add, oneOf_add, oneOf_add]
    congr
    funext c
    simp [Char.isAlphanum, or_assoc]
  have hrest : fieldLexicon.Recognizes (.star (.alt [Rules.lower, Rules.upper, Rules.digit, .ch 43, .trg 45 46]))
      (oneOf fun c => c.isAlphanum = true ∨ c ∈ ("+-." : Text))∗ (HeadIn ":") := by
    refine (class_schemeRest.token.star opens_oneOf.nil_notMem).mono fun t ht => opens_oneOf.apart (fun c hc hmem => ?_) ht
    obtain rfl : c = ':' := by simpa using hmem
    revert hc
    decide
  rw [heq]
  have hbody := recognizes_cat_cons (E := fun _ => True) class_letter.token.recognizes hrest.cat_one fun _ _ _ _ => trivial
  exact recognizes_noted (f := UriCapture.onScheme) hbody (uri_rule "scheme" 29 rfl) (by simp [UriCapture.actions])
    fun _ _ _ _ _ => rfl

end SignIn
