import Huldra.Keys
import Mathlib.Data.List.Infix

/-!
# Wrappers — what `normalize_arxiv_id` takes off, and how often

A URL, an `arXiv:` prefix, three path prefixes with and without a leading slash and a suffix are
taken off once each, in a fixed order.  An identifier is stable under a second normalisation when
it is bare; so the first one is enough exactly for a value that is a bare identifier in at most one
layer of each wrapper.
-/

namespace Huldra
namespace Text

open scoped List

/-! ## Blanks -/

/-- Nothing but white space. -/
def Blank (s : Text) : Prop :=
  ∀ c ∈ s, isSpace c = true

theorem Blank.nil : Blank [] :=
  fun _ h => nomatch h

theorem Blank.append {s t : Text} (hs : Blank s) (ht : Blank t) : Blank (s ++ t) := by
  intro c hc
  rcases List.mem_append.1 hc with hc | hc
  · exact hs c hc
  · exact ht c hc

theorem Blank.lstrip_append {s : Text} (hs : Blank s) (t : Text) : lstrip (s ++ t) = lstrip t := by
  induction s with
  | nil => rfl
  | cons c rest ih =>
      have hc : isSpace c = true := hs c List.mem_cons_self
      have hrest : Blank rest := fun c' hc' => hs c' (List.mem_cons_of_mem _ hc')
      simpa [lstrip, hc] using ih hrest

theorem Blank.rstrip_append {t : Text} (ht : Blank t) (s : Text) : rstrip (s ++ t) = rstrip s := by
  have hreverse : Blank t.reverse := fun c hc => ht c (List.mem_reverse.1 hc)
  have hdrop := hreverse.lstrip_append s.reverse
  simp only [lstrip] at hdrop
  simp [rstrip, hdrop]

/-- A text is what `lstrip` leaves after some blanks. -/
theorem exists_lstrip (s : Text) : ∃ b, Blank b ∧ s = b ++ lstrip s := by
  refine ⟨s.takeWhile isSpace, ?_, (List.takeWhile_append_dropWhile).symm⟩
  intro c hc
  exact List.mem_takeWhile_imp hc

theorem exists_rstrip (s : Text) : ∃ b, Blank b ∧ s = rstrip s ++ b := by
  rcases exists_lstrip s.reverse with ⟨b, hb, hs⟩
  refine ⟨b.reverse, fun c hc => hb c (List.mem_reverse.1 hc), ?_⟩
  have hreverse := congrArg List.reverse hs
  simpa [rstrip, lstrip] using hreverse

theorem exists_strip (s : Text) : ∃ b e, Blank b ∧ Blank e ∧ s = b ++ strip s ++ e := by
  rcases exists_lstrip s with ⟨b, hb, hs⟩
  rcases exists_rstrip (lstrip s) with ⟨e, he, hl⟩
  refine ⟨b, e, hb, he, ?_⟩
  calc
    s = b ++ lstrip s := hs
    _ = b ++ (strip s ++ e) := by rw [strip, ← hl]
    _ = b ++ strip s ++ e := (List.append_assoc _ _ _).symm

theorem strip_lstrip (s : Text) : strip (lstrip s) = strip s := by
  simp [strip, lstrip, List.dropWhile_idempotent isSpace s]

theorem Blank.strip_append {e : Text} (he : Blank e) (s : Text) : strip (s ++ e) = strip s := by
  induction s with
  | nil =>
      have hnil := he.lstrip_append []
      rw [List.append_nil] at hnil
      rw [List.nil_append, strip, hnil]
      rfl
  | cons c rest ih =>
      by_cases hc : isSpace c = true
      · simpa [strip, lstrip, hc] using ih
      · have hkeep := he.rstrip_append (c :: rest)
        simpa [strip, lstrip, hc] using hkeep

/-- Blanks around a text do not change what `strip` leaves. -/
theorem strip_blanks {b e : Text} (hb : Blank b) (he : Blank e) (s : Text) :
    strip (b ++ s ++ e) = strip s := by
  rw [he.strip_append, strip, hb.lstrip_append, strip]

theorem strip_sublist (s : Text) : strip s <+ s :=
  (rstrip_prefix_self _).sublist.trans (List.dropWhile_sublist _)

theorem removePrefix_sublist (p s : Text) : removePrefix p s <+ s := by
  unfold removePrefix
  split
  · exact List.drop_sublist _ _
  · exact List.Sublist.refl s

theorem removeSuffix_sublist (p s : Text) : removeSuffix p s <+ s := by
  unfold removeSuffix
  split
  · exact List.take_sublist _ _
  · exact List.Sublist.refl s

theorem removePrefix_append (p s : Text) : removePrefix p (p ++ s) = s := by
  simp [removePrefix]

theorem removePrefix_of_not {p s : Text} (h : ¬ p <+: s) : removePrefix p s = s := by
  simp [removePrefix, List.isPrefixOf_iff_prefix, h]

theorem removeSuffix_append (p s : Text) : removeSuffix p (s ++ p) = s := by
  simp [removeSuffix]

theorem removeSuffix_of_not {p s : Text} (h : ¬ p <:+ s) : removeSuffix p s = s := by
  simp [removeSuffix, List.isSuffixOf_iff_suffix, h]

theorem removePrefix_eq_self {p s : Text} (hp : p ≠ []) (h : removePrefix p s = s) :
    ¬ p <+: s := by
  rintro ⟨rest, rfl⟩
  rw [removePrefix_append] at h
  exact hp (List.self_eq_append_left.1 h)

theorem removeSuffix_eq_self {p s : Text} (hp : p ≠ []) (h : removeSuffix p s = s) :
    ¬ p <:+ s := by
  rintro ⟨rest, rfl⟩
  rw [removeSuffix_append] at h
  exact hp (List.self_eq_append_right.1 h)

/-! ## A list of prefixes, each taken off once -/

/-- Each prefix of the list is removed in its turn. -/
def removePrefixes (ps : List Text) (s : Text) : Text :=
  ps.foldl (fun s p => removePrefix p s) s

theorem removePrefixes_sublist (ps : List Text) (s : Text) : removePrefixes ps s <+ s := by
  induction ps generalizing s with
  | nil => exact List.Sublist.refl s
  | cons p rest ih => exact (ih _).trans (removePrefix_sublist p s)

/-- Where nothing is taken off, there is nothing to take off. -/
theorem not_prefix_of_removePrefixes {ps : List Text} (hne : ∀ p ∈ ps, p ≠ []) {s : Text}
    (h : removePrefixes ps s = s) : ∀ p ∈ ps, ¬ p <+: s := by
  induction ps with
  | nil => exact fun p hp => nomatch hp
  | cons p rest ih =>
      change removePrefixes rest (removePrefix p s) = s at h
      have hrest := removePrefixes_sublist rest (removePrefix p s)
      rw [h] at hrest
      have hp : removePrefix p s = s := (removePrefix_sublist p s).antisymm hrest
      rw [hp] at h
      have hothers := ih (fun q hq => hne q (List.mem_cons_of_mem _ hq)) h
      intro q hq
      rcases List.mem_cons.1 hq with rfl | hq
      · exact removePrefix_eq_self (hne q List.mem_cons_self) hp
      · exact hothers q hq

/-- What was taken off are some of the prefixes, in the order of the list. -/
theorem exists_removePrefixes (ps : List Text) (s : Text) :
    ∃ taken, taken <+ ps ∧ s = taken.flatten ++ removePrefixes ps s := by
  induction ps generalizing s with
  | nil => exact ⟨[], List.Sublist.refl [], rfl⟩
  | cons p rest ih =>
      rcases ih (removePrefix p s) with ⟨taken, htaken, hs⟩
      by_cases hp : p <+: s
      · rcases hp with ⟨t, rfl⟩
        rw [removePrefix_append] at hs
        refine ⟨p :: taken, htaken.cons_cons p, ?_⟩
        change p ++ t = p ++ taken.flatten ++ removePrefixes rest (removePrefix p (p ++ t))
        rw [removePrefix_append, List.append_assoc, ← hs]
      · rw [removePrefix_of_not hp] at hs
        refine ⟨taken, htaken.cons p, ?_⟩
        change s = taken.flatten ++ removePrefixes rest (removePrefix p s)
        rw [removePrefix_of_not hp]
        exact hs

/-- No member of the list begins a text that begins with another. -/
def Distinguishable (ps : List Text) : Prop :=
  ps.Pairwise fun p q => p.take q.length ≠ q.take p.length

instance (ps : List Text) : Decidable (Distinguishable ps) :=
  inferInstanceAs (Decidable (ps.Pairwise fun p q => p.take q.length ≠ q.take p.length))

theorem not_prefix_of_distinguishable {p q : Text} (h : p.take q.length ≠ q.take p.length)
    (s : Text) : ¬ p <+: q ++ s := by
  rintro ⟨rest, heq⟩
  refine h ?_
  have htake := congrArg (List.take (min p.length q.length)) heq
  rw [List.take_append_of_le_length (Nat.min_le_left _ _),
    List.take_append_of_le_length (Nat.min_le_right _ _)] at htake
  simpa [List.take_eq_take_min, Nat.min_comm] using htake

/-- Prefixes in front of a text that begins with none are taken off, no more and no less. -/
theorem removePrefixes_taken {ps taken : List Text} (hps : Distinguishable ps)
    (htaken : taken <+ ps) {s : Text} (hs : ∀ p ∈ ps, ¬ p <+: s) :
    removePrefixes ps (taken.flatten ++ s) = s := by
  induction ps generalizing taken with
  | nil =>
      cases htaken
      rfl
  | cons p rest ih =>
      have hrest := (List.pairwise_cons.1 hps).2
      have hs' : ∀ q ∈ rest, ¬ q <+: s := fun q hq => hs q (List.mem_cons_of_mem _ hq)
      cases htaken with
      | cons _ htaken =>
          have hnot : ¬ p <+: taken.flatten ++ s := by
            cases taken with
            | nil => exact hs p List.mem_cons_self
            | cons q others =>
                have hq : q ∈ rest := htaken.subset List.mem_cons_self
                rw [List.flatten_cons, List.append_assoc]
                exact not_prefix_of_distinguishable ((List.pairwise_cons.1 hps).1 q hq) _
          change removePrefixes rest (removePrefix p (taken.flatten ++ s)) = s
          rw [removePrefix_of_not hnot]
          exact ih hrest htaken hs'
      | @cons_cons others _ _ htaken =>
          change removePrefixes rest (removePrefix p (p ++ others.flatten ++ s)) = s
          rw [List.append_assoc, removePrefix_append]
          exact ih hrest htaken hs'

end Text

namespace Keys

open Text
open scoped List

/-! ## The steps of the normalisation -/

def pathPrefixes : List Text :=
  ["abs/".toList, "/abs/".toList, "pdf/".toList, "/pdf/".toList, "e-print/".toList,
    "/e-print/".toList]

/-- What is left of a value once it is trimmed, and once a URL is reduced to its path. -/
def body (value : Text) : Text :=
  match urlPath (strip value) with
  | some path => path.dropWhile (· == '/')
  | none => strip value

/-- What is made of a body. -/
def unwrap (raw : Text) : Text :=
  strip (removeSuffix ".pdf".toList (removePrefixes pathPrefixes (strip (dropArxivPrefix raw))))

theorem normalizeChars_eq (value : Text) : normalizeChars value = unwrap (body value) := by
  cases hurl : urlPath (strip value) <;>
    simp only [normalizeChars, body, hurl, unwrap, removePrefixes, pathPrefixes, List.foldl_cons,
      List.foldl_nil]

/-- `arxiv:`, in any case. -/
def isArxivPrefix (s : Text) : Bool :=
  match s with
  | [a, r, x, i, v, ':'] =>
      sameLetter 'a' a && sameLetter 'r' r && sameLetter 'x' x && sameLetter 'i' i &&
        sameLetter 'v' v
  | _ => false

theorem dropArxivPrefix_append {a : Text} (ha : isArxivPrefix a = true) (s : Text) :
    dropArxivPrefix (a ++ s) = lstrip s := by
  unfold isArxivPrefix at ha
  split at ha
  · simp only [List.cons_append, List.nil_append, dropArxivPrefix]
    exact if_pos ha
  · cases ha

theorem dropArxivPrefix_of_not {s : Text} (h : ∀ a, isArxivPrefix a = true → ¬ a <+: s) :
    dropArxivPrefix s = s := by
  unfold dropArxivPrefix
  split
  case h_1 a r x i v rest =>
    split
    case isTrue hletters =>
      exact absurd ⟨rest, rfl⟩ (h [a, r, x, i, v, ':'] (by simpa [isArxivPrefix] using hletters))
    case isFalse => rfl
  case h_2 => rfl

theorem exists_dropArxivPrefix (s : Text) :
    ∃ a b, (a = [] ∨ isArxivPrefix a = true) ∧ Blank b ∧ s = a ++ (b ++ dropArxivPrefix s) := by
  by_cases h : ∃ a, isArxivPrefix a = true ∧ a <+: s
  · rcases h with ⟨a, ha, t, rfl⟩
    rcases exists_lstrip t with ⟨b, hb, ht⟩
    refine ⟨a, b, Or.inr ha, hb, ?_⟩
    rw [dropArxivPrefix_append ha, ← ht]
  · refine ⟨[], [], Or.inl rfl, .nil, ?_⟩
    rw [dropArxivPrefix_of_not fun a ha hpre => h ⟨a, ha, hpre⟩]
    rfl

theorem dropArxivPrefix_sublist (s : Text) : dropArxivPrefix s <+ s := by
  rcases exists_dropArxivPrefix s with ⟨a, b, _, _, hs⟩
  conv_rhs => rw [hs]
  exact (List.sublist_append_right b _).trans (List.sublist_append_right a _)

theorem unwrap_sublist (raw : Text) : unwrap raw <+ raw :=
  (strip_sublist _).trans ((removeSuffix_sublist _ _).trans ((removePrefixes_sublist _ _).trans
    ((strip_sublist _).trans (dropArxivPrefix_sublist raw))))

/-! ## A path is shorter than its URL -/

theorem splitAtFirst_length_le (p : Char → Bool) (s : Text) :
    (splitAtFirst p s).1.length ≤ s.length ∧ (splitAtFirst p s).2.length ≤ s.length :=
  ⟨(List.takeWhile_sublist _).length_le, (List.dropWhile_sublist _).length_le⟩

theorem splitParams_length_le (s : Text) : (splitParams s).length ≤ s.length := by
  have hlast := (splitAtFirst_length_le (· == ';') (s.reverse.takeWhile (· != '/')).reverse).1
  have hle := (List.takeWhile_sublist (l := s.reverse) (· != '/')).length_le
  simp only [List.length_reverse] at hlast hle
  simp only [splitParams, List.length_append, List.length_take]
  omega

theorem splitNetloc_length_le (s : Text) : (splitNetloc s).2.length ≤ s.length := by
  unfold splitNetloc
  split
  case h_1 rest =>
    have hrest := (splitAtFirst_length_le (fun c => c == '/' || c == '?' || c == '#') rest).2
    simp only [List.length_cons]
    omega
  case h_2 => exact le_rfl

/-- A scheme is found only where a colon follows it. -/
theorem splitScheme_length_lt {s : Text} (h : (splitScheme s).1.isEmpty = false) :
    (splitScheme s).2.length < s.length := by
  have hrest := (splitAtFirst_length_le (· == ':') s).2
  unfold splitScheme at h ⊢
  simp only at h ⊢
  split at h
  case h_1 c head colon tail hhead htail =>
    rw [htail, List.length_cons] at hrest
    simp only [hhead] at h ⊢
    split at h
    case isTrue hall =>
      rw [if_pos hall]
      exact hrest
    case isFalse => cases h
  case h_2 => cases h

theorem urlPath_length_lt {raw path : Text} (h : urlPath raw = some path) :
    path.length < raw.length := by
  unfold urlPath at h
  simp only at h
  generalize hclean : (raw.dropWhile fun c => decide (c.toNat ≤ 32)).filter
    (fun c => c != '\t' && c != '\r' && c != '\n') = url at h
  have hurl : url.length ≤ raw.length := by
    rw [← hclean]
    exact (List.filter_sublist.trans (List.dropWhile_sublist _)).length_le
  split at h
  · cases h
  case isFalse hfound =>
    have hscheme : (splitScheme url).1.isEmpty = false := by
      cases hempty : (splitScheme url).1.isEmpty with
      | true => exact absurd (by simp [hempty]) hfound
      | false => rfl
    have hlonger := splitScheme_length_lt hscheme
    have hrest := splitNetloc_length_le (splitScheme url).2
    have hfragment := (splitAtFirst_length_le (· == '#') (splitNetloc (splitScheme url).2).2).1
    have hquery := (splitAtFirst_length_le (· == '?')
      (splitAtFirst (· == '#') (splitNetloc (splitScheme url).2).2).1).1
    have hpath := splitParams_length_le (splitAtFirst (· == '?')
      (splitAtFirst (· == '#') (splitNetloc (splitScheme url).2).2).1).1
    cases Option.some.inj h
    split <;> omega

theorem body_sublist_or (value : Text) :
    (urlPath (strip value) = none ∧ body value = strip value) ∨
      (body value).length < value.length := by
  unfold body
  cases hurl : urlPath (strip value) with
  | none => exact Or.inl ⟨rfl, rfl⟩
  | some path =>
      refine Or.inr ?_
      have hpath := urlPath_length_lt hurl
      have hdrop := (List.dropWhile_sublist (l := path) (· == '/')).length_le
      have hstrip := (strip_sublist value).length_le
      simp only
      omega

/-! ## Bare identifiers -/

/-- The network location `urlparse` looks at. -/
def urlNetloc (raw : Text) : Text :=
  let url := (raw.dropWhile fun c => c.toNat ≤ 32).filter
    fun c => c != '\t' && c != '\r' && c != '\n'
  (splitNetloc (splitScheme url).2).1

/-- An identifier that no wrapper is left on. -/
structure Bare (id : Text) : Prop where
  stripped : strip id = id
  noUrl : urlPath id = none
  noArxiv : ∀ a, isArxivPrefix a = true → ¬ a <+: id
  noPath : ∀ p ∈ pathPrefixes, ¬ p <+: id
  noPdf : ¬ ".pdf".toList <:+ id

theorem normalizeChars_of_bare {id : Text} (h : Bare id) : normalizeChars id = id := by
  have hbody : body id = id := by
    rw [body, h.stripped, h.noUrl]
  have hpaths : removePrefixes pathPrefixes id = id :=
    removePrefixes_taken (by decide) (List.nil_sublist pathPrefixes) h.noPath
  rw [normalizeChars_eq, hbody, unwrap, dropArxivPrefix_of_not h.noArxiv, h.stripped, hpaths,
    removeSuffix_of_not h.noPdf, h.stripped]

/-- Where nothing at all changes, no step has changed anything. -/
theorem bare_of_normalizeChars {id : Text} (h : normalizeChars id = id) : Bare id := by
  rw [normalizeChars_eq] at h
  have hunwrap := unwrap_sublist (body id)
  rw [h] at hunwrap
  rcases body_sublist_or id with ⟨hurl, hbody⟩ | hshorter
  · have hstrip : strip id = id := (strip_sublist id).antisymm (hbody ▸ hunwrap)
    rw [hstrip] at hurl hbody
    rw [hbody, unwrap] at h
    -- Each text on the way lies between the first and the last, which are the same.
    have h₃ := removeSuffix_sublist ".pdf".toList
      (removePrefixes pathPrefixes (strip (dropArxivPrefix id)))
    have h₂ := removePrefixes_sublist pathPrefixes (strip (dropArxivPrefix id))
    have h₁ := strip_sublist (dropArxivPrefix id)
    have h₀ := dropArxivPrefix_sublist id
    have hsuffix := strip_sublist (removeSuffix ".pdf".toList
      (removePrefixes pathPrefixes (strip (dropArxivPrefix id))))
    rw [h] at hsuffix
    have e₀ : dropArxivPrefix id = id :=
      h₀.antisymm (hsuffix.trans (h₃.trans (h₂.trans h₁)))
    rw [e₀, hstrip] at hsuffix h₂ h₃
    have e₁ : removePrefixes pathPrefixes id = id := h₂.antisymm (hsuffix.trans h₃)
    rw [e₁] at hsuffix h₃
    have e₂ : removeSuffix ".pdf".toList id = id := h₃.antisymm hsuffix
    refine ⟨hstrip, hurl, ?_, not_prefix_of_removePrefixes (by decide) e₁,
      removeSuffix_eq_self (by decide) e₂⟩
    rintro a ha ⟨rest, rfl⟩
    rw [dropArxivPrefix_append ha] at e₀
    have hlength := congrArg List.length e₀
    have hdrop := (List.dropWhile_sublist (l := rest) isSpace).length_le
    have hpos : 0 < a.length := by
      cases a with
      | nil => cases ha
      | cons => simp
    simp only [lstrip, List.length_append] at hlength
    omega
  · have := hunwrap.length_le
    omega

/-! ## One layer of each wrapper -/

/-- What may stand between the path prefixes and the end: the identifier among blanks, and the
suffix. -/
def Cored (id q : Text) : Prop :=
  ∃ inner tail pdf, Blank inner ∧ Blank tail ∧ (pdf = [] ∨ pdf = ".pdf".toList) ∧
    q = inner ++ (id ++ (tail ++ pdf))

/-- The identifier in at most one layer of each wrapper, in the order they are taken off. -/
def OnceWrapped (raw id : Text) : Prop :=
  ∃ (arxiv lead : Text) (taken : List Text) (q trail : Text),
    (arxiv = [] ∨ isArxivPrefix arxiv = true) ∧ Blank lead ∧ taken <+ pathPrefixes ∧
      Cored id q ∧ Blank trail ∧ raw = arxiv ++ (lead ++ (taken.flatten ++ q) ++ trail)

/-- Every body is what comes out of it in one layer of wrappers. -/
theorem onceWrapped_unwrap (raw : Text) : OnceWrapped raw (unwrap raw) := by
  rcases exists_dropArxivPrefix raw with ⟨arxiv, lead, harxiv, hlead, hraw⟩
  rcases exists_strip (dropArxivPrefix raw) with ⟨lead', trail, hlead', htrail, hstrip⟩
  rcases exists_removePrefixes pathPrefixes (strip (dropArxivPrefix raw)) with
    ⟨taken, htaken, hpaths⟩
  generalize hq : removePrefixes pathPrefixes (strip (dropArxivPrefix raw)) = q at hpaths
  have hcored : Cored (unwrap raw) q := by
    rcases exists_strip (removeSuffix ".pdf".toList q) with ⟨inner, tail, hinner, htail, hid⟩
    rw [unwrap, hq]
    by_cases hpdf : ".pdf".toList <:+ q
    · rcases hpdf with ⟨p, rfl⟩
      rw [removeSuffix_append] at hid ⊢
      exact ⟨inner, tail, _, hinner, htail, Or.inr rfl, by
        conv_lhs => rw [hid]
        simp⟩
    · rw [removeSuffix_of_not hpdf] at hid ⊢
      exact ⟨inner, tail, [], hinner, htail, Or.inl rfl, by
        conv_lhs => rw [hid]
        simp⟩
  refine ⟨arxiv, lead ++ lead', taken, q, trail, harxiv, hlead.append hlead', htaken, hcored,
    htrail, ?_⟩
  calc
    raw = arxiv ++ (lead ++ dropArxivPrefix raw) := hraw
    _ = arxiv ++ (lead ++ (lead' ++ strip (dropArxivPrefix raw) ++ trail)) :=
      congrArg (fun t => arxiv ++ (lead ++ t)) hstrip
    _ = arxiv ++ (lead ++ lead' ++ (taken.flatten ++ q) ++ trail) := by
      rw [hpaths]
      simp

/-! ## What comes out of one layer -/

/-- A text that does not contain what the rest begins with lies before it. -/
theorem prefix_of_prefix_append {m s z : Text} (hz : ∀ c ∈ z.head?, c ∉ m) (h : m <+: s ++ z) :
    m <+: s := by
  induction m generalizing s with
  | nil => exact List.nil_prefix
  | cons c rest ih =>
      cases s with
      | nil =>
          cases z with
          | nil => simp at h
          | cons d others =>
              have hd : c = d := (List.cons_prefix_cons.1 h).1
              exact absurd (by simp [hd]) (hz d rfl)
      | cons d others =>
          have hcons := List.cons_prefix_cons.1 h
          exact List.cons_prefix_cons.2 ⟨hcons.1,
            ih (fun e he hmem => hz e he (List.mem_cons_of_mem _ hmem)) hcons.2⟩

/-- Neither a blank nor a dot: the suffix cannot reach into such a text. -/
def Solid (m : Text) : Prop :=
  ∀ c ∈ m, isSpace c = false ∧ c ≠ '.'

/-- A letter of the prefix is a small one, a capital, or one of the two variants of `i`. -/
theorem sameLetter_cases {lower c : Char} (h : sameLetter lower c = true) :
    c = lower ∨ (65 ≤ c.toNat ∧ c.toNat ≤ 90) ∨ c.toNat = 0x130 ∨ c.toNat = 0x131 := by
  simp only [sameLetter, Bool.or_eq_true, beq_iff_eq, Bool.and_eq_true] at h
  rcases h with hlower | ⟨_, hvariant⟩
  · unfold lowerAscii at hlower
    split at hlower
    case isTrue hcapital => exact Or.inr (Or.inl hcapital)
    case isFalse => exact Or.inl hlower
  · exact Or.inr (Or.inr hvariant)

theorem solid_letter {lower c : Char} (hlower : isSpace lower = false ∧ lower ≠ '.')
    (h : sameLetter lower c = true) : isSpace c = false ∧ c ≠ '.' := by
  rcases sameLetter_cases h with rfl | hother
  · exact hlower
  · refine ⟨?_, ?_⟩
    · simp only [isSpace, Bool.or_eq_false_iff, Bool.and_eq_false_iff, decide_eq_false_iff_not,
        beq_eq_false_iff_ne]
      omega
    · rintro rfl
      revert hother
      decide

theorem solid_of_isArxivPrefix {a : Text} (h : isArxivPrefix a = true) : Solid a := by
  unfold isArxivPrefix at h
  split at h
  case h_1 a r x i v =>
    simp only [Bool.and_eq_true] at h
    intro c hc
    simp only [List.mem_cons, List.not_mem_nil, or_false] at hc
    rcases hc with rfl | rfl | rfl | rfl | rfl | rfl
    · exact solid_letter (by decide) h.1.1.1.1
    · exact solid_letter (by decide) h.1.1.1.2
    · exact solid_letter (by decide) h.1.1.2
    · exact solid_letter (by decide) h.1.2
    · exact solid_letter (by decide) h.2
    · decide
  case h_2 => cases h

theorem solid_of_mem_pathPrefixes {p : Text} (h : p ∈ pathPrefixes) : Solid p := by
  have hall : (pathPrefixes.all fun p => p.all fun c => !isSpace c && c != '.') = true := by
    decide
  intro c hc
  have hsolid := List.all_eq_true.1 (List.all_eq_true.1 hall p h) c hc
  simpa using hsolid

/-- What follows the identifier begins with a blank or a dot. -/
theorem head_of_tail {m tail pdf z : Text} (hm : Solid m) (htail : Blank tail)
    (hpdf : pdf = [] ∨ pdf = ".pdf".toList) (hz : Blank z) :
    ∀ c ∈ (tail ++ (pdf ++ z)).head?, c ∉ m := by
  intro c hc hmem
  have hsolid := hm c hmem
  have hblank : ∀ {t : Text}, Blank t → c ∈ t → False := by
    intro t ht hct
    rw [ht c hct] at hsolid
    exact absurd hsolid.1 (by decide)
  cases tail with
  | cons d rest =>
      cases hc
      exact hblank htail List.mem_cons_self
  | nil =>
      rcases hpdf with rfl | rfl
      · exact hblank hz (List.mem_of_mem_head? hc)
      · cases hc
        exact hsolid.2 rfl

/-- A solid text at the beginning of a core begins the identifier. -/
theorem prefix_of_cored {id q m z : Text} (hq : Cored id q) (hm : Solid m) (hne : m ≠ [])
    (hz : Blank z) (h : m <+: q ++ z) : m <+: id := by
  rcases hq with ⟨inner, tail, pdf, hinner, htail, hpdf, rfl⟩
  cases inner with
  | cons c rest =>
      cases m with
      | nil => exact absurd rfl hne
      | cons d others =>
          have hd : d = c := (List.cons_prefix_cons.1 h).1
          have hblank := hinner c List.mem_cons_self
          rw [← hd, (hm d List.mem_cons_self).1] at hblank
          cases hblank
  | nil =>
      simp only [List.nil_append, List.append_assoc] at h
      exact prefix_of_prefix_append (head_of_tail hm htail hpdf hz) h

theorem lstrip_of_stripped {s : Text} (h : strip s = s) : lstrip s = s := by
  have hle : s <+ lstrip s := by
    conv_lhs => rw [← h]
    exact (rstrip_prefix_self _).sublist
  exact (List.dropWhile_sublist _).antisymm hle

theorem rstrip_of_stripped {s : Text} (h : strip s = s) : rstrip s = s := by
  rwa [strip, lstrip_of_stripped h] at h

/-- What ends with no blank is not shortened, and what stands before it is not touched. -/
theorem rstrip_append_of_rstrip {s t : Text} (ht : rstrip t ≠ []) :
    rstrip (s ++ t) = s ++ rstrip t := by
  have hne : (t.reverse.dropWhile isSpace).isEmpty = false := by
    simpa [rstrip] using ht
  simp [rstrip, List.dropWhile_append, hne]

theorem rstrip_pdf (s : Text) : rstrip (s ++ ".pdf".toList) = s ++ ".pdf".toList :=
  rstrip_append_of_rstrip (by decide)

theorem cored_rstrip {id q : Text} (hid : Bare id) (hq : Cored id q) : Cored id (rstrip q) := by
  rcases hq with ⟨inner, tail, pdf, hinner, htail, rfl | rfl, rfl⟩
  · rw [List.append_nil, ← List.append_assoc, htail.rstrip_append]
    by_cases hempty : id = []
    · subst hempty
      have hnil : rstrip inner = [] := hinner.rstrip_append []
      exact ⟨[], [], [], .nil, .nil, Or.inl rfl, by simpa using hnil⟩
    · have hkeep := rstrip_of_stripped hid.stripped
      rw [rstrip_append_of_rstrip (by rwa [hkeep]), hkeep]
      exact ⟨inner, [], [], hinner, .nil, Or.inl rfl, by simp⟩
  · have hkeep := rstrip_pdf (inner ++ (id ++ tail))
    simp only [List.append_assoc] at hkeep
    rw [hkeep]
    exact ⟨inner, tail, _, hinner, htail, Or.inr rfl, rfl⟩

theorem cored_lstrip {id q : Text} (hid : Bare id) (hq : Cored id q) : Cored id (lstrip q) := by
  rcases hq with ⟨inner, tail, pdf, hinner, htail, hpdf, rfl⟩
  rw [hinner.lstrip_append]
  cases hchars : id with
  | nil =>
      rw [List.nil_append, htail.lstrip_append]
      refine ⟨[], [], pdf, .nil, .nil, hpdf, ?_⟩
      rcases hpdf with rfl | rfl
      · rfl
      · decide
  | cons c rest =>
      have hkeep := lstrip_of_stripped hid.stripped
      have hc : isSpace c = false := by
        cases hspace : isSpace c with
        | false => rfl
        | true =>
            have hlength := congrArg List.length hkeep
            have hdrop := (List.dropWhile_sublist (l := rest) isSpace).length_le
            simp only [hchars, lstrip, List.dropWhile_cons, hspace, if_true,
              List.length_cons] at hlength
            omega
      refine ⟨[], tail, pdf, .nil, htail, hpdf, ?_⟩
      simp [lstrip, hc]

/-- Trimming leaves the path prefixes in front of a core. -/
theorem strip_taken {id q : Text} (hid : Bare id) (hq : Cored id q) {taken : List Text}
    (htaken : taken <+ pathPrefixes) :
    ∃ q', Cored id q' ∧ strip (taken.flatten ++ q) = taken.flatten ++ q' := by
  cases taken with
  | nil => exact ⟨strip q, cored_rstrip hid (cored_lstrip hid hq), rfl⟩
  | cons p others =>
      refine ⟨rstrip q, cored_rstrip hid hq, ?_⟩
      have hsolid : ∀ c ∈ (p :: others).flatten, isSpace c = false := by
        intro c hc
        rcases List.mem_flatten.1 hc with ⟨p', hp', hc⟩
        exact (solid_of_mem_pathPrefixes (htaken.subset hp') c hc).1
      have hne : (p :: others).flatten ≠ [] := by
        have hp : p ≠ [] := by
          have hall : ∀ p ∈ pathPrefixes, p ≠ [] := by decide
          exact hall p (htaken.subset List.mem_cons_self)
        simp [hp]
      generalize (p :: others).flatten = front at hsolid hne ⊢
      have hleft : lstrip (front ++ q) = front ++ q := by
        cases front with
        | nil => exact absurd rfl hne
        | cons c rest => simp [lstrip, hsolid c List.mem_cons_self]
      rw [strip, hleft]
      by_cases hempty : rstrip q = []
      · -- All of the core is blank, and the prefixes end with a slash.
        have hright : rstrip front = front := by
          have hfront : front.reverse.dropWhile isSpace = front.reverse := by
            cases hrev : front.reverse with
            | nil => rfl
            | cons c rest =>
                have hc := hsolid c (List.mem_reverse.1 (by rw [hrev]; exact List.mem_cons_self))
                simp [hc]
          rw [rstrip, hfront, List.reverse_reverse]
        rcases exists_rstrip q with ⟨b, hb, hsplit⟩
        rw [hempty, List.nil_append] at hsplit
        rw [hempty, List.append_nil, hsplit, hb.rstrip_append, hright]
      · exact rstrip_append_of_rstrip hempty

/-- Out of a core comes the identifier. -/
theorem strip_removeSuffix_cored {id q : Text} (hid : Bare id) (hq : Cored id q) :
    strip (removeSuffix ".pdf".toList q) = id := by
  rcases hq with ⟨inner, tail, pdf, hinner, htail, rfl | rfl, rfl⟩
  · rw [List.append_nil, ← List.append_assoc, removeSuffix_of_not, strip_blanks hinner htail,
      hid.stripped]
    intro hsuffix
    refine hid.noPdf ?_
    -- Read backwards, the suffix begins the identifier: no blank can stand in its way.
    have hpre : ".pdf".toList.reverse <+: tail.reverse ++ (id.reverse ++ inner.reverse) := by
      have hreverse := List.reverse_prefix.2 hsuffix
      simpa using hreverse
    have hletters : (".pdf".toList.reverse.all fun c => !isSpace c) = true := by decide
    have hblank : ∀ {t : Text}, Blank t → ∀ c ∈ t.reverse.head?, c ∉ ".pdf".toList.reverse := by
      intro t ht c hc hmem
      have hspace := ht c (List.mem_reverse.1 (List.mem_of_mem_head? hc))
      have hletter := List.all_eq_true.1 hletters c hmem
      rw [hspace] at hletter
      cases hletter
    have htailnil : tail.reverse = [] := by
      cases hrev : tail.reverse with
      | nil => rfl
      | cons c rest =>
          have hc := hblank htail c (by rw [hrev]; rfl)
          rw [hrev, List.cons_append] at hpre
          have hhead : 'f' = c := (List.cons_prefix_cons.1 hpre).1
          exact absurd (by rw [← hhead]; decide) hc
    rw [htailnil, List.nil_append] at hpre
    exact List.reverse_prefix.1 (prefix_of_prefix_append (hblank hinner) hpre)
  · rw [← List.append_assoc id, ← List.append_assoc inner, removeSuffix_append,
      ← List.append_assoc, strip_blanks hinner htail, hid.stripped]

theorem no_arxiv_prefix_of_path {a p z : Text} (ha : isArxivPrefix a = true)
    (hp : p ∈ pathPrefixes) : ¬ a <+: p ++ z := by
  intro hpre
  -- The first two letters tell them apart.
  have hletters : (pathPrefixes.all fun p => p[0]?.all fun c => p[1]?.all fun d =>
      !(sameLetter 'a' c && sameLetter 'r' d)) = true := by decide
  have hlong : ∀ p ∈ pathPrefixes, 2 ≤ p.length := by decide
  unfold isArxivPrefix at ha
  split at ha
  case h_1 a r x i v =>
    simp only [Bool.and_eq_true] at ha
    have hlength := hlong p hp
    rcases p with _ | ⟨c, _ | ⟨d, rest⟩⟩
    · simp at hlength
    · simp at hlength
    have hfirst := List.cons_prefix_cons.1 hpre
    have hsecond := List.cons_prefix_cons.1 hfirst.2
    have hfalse : (!(sameLetter 'a' c && sameLetter 'r' d)) = true :=
      List.all_eq_true.1 hletters _ hp
    rw [← hfirst.1, ← hsecond.1] at hfalse
    rw [ha.1.1.1.1, ha.1.1.1.2] at hfalse
    cases hfalse
  case h_2 => cases ha

/-- A body in one layer of wrappers has no `arXiv:` prefix but the one of that layer. -/
theorem no_arxiv_prefix {id q lead trail : Text} (hid : Bare id) (hq : Cored id q)
    (hlead : Blank lead) (htrail : Blank trail) {taken : List Text}
    (htaken : taken <+ pathPrefixes) {a : Text} (ha : isArxivPrefix a = true) :
    ¬ a <+: lead ++ (taken.flatten ++ q) ++ trail := by
  intro hpre
  have hsolid := solid_of_isArxivPrefix ha
  have hne : a ≠ [] := by
    rintro rfl
    cases ha
  cases lead with
  | cons c rest =>
      cases a with
      | nil => exact hne rfl
      | cons d others =>
          have hd : d = c := (List.cons_prefix_cons.1 hpre).1
          have hblank := hlead c List.mem_cons_self
          rw [← hd, (hsolid d List.mem_cons_self).1] at hblank
          cases hblank
  | nil =>
      cases taken with
      | nil => exact hid.noArxiv a ha (prefix_of_cored hq hsolid hne htrail hpre)
      | cons p others =>
          have hp := htaken.subset List.mem_cons_self
          rw [List.nil_append, List.flatten_cons, List.append_assoc, List.append_assoc] at hpre
          exact no_arxiv_prefix_of_path ha hp hpre

/-- A bare identifier in one layer of wrappers comes out of it. -/
theorem unwrap_of_onceWrapped {raw id : Text} (hid : Bare id) (h : OnceWrapped raw id) :
    unwrap raw = id := by
  rcases h with ⟨arxiv, lead, taken, q, trail, harxiv, hlead, htaken, hq, htrail, rfl⟩
  have hdrop : strip (dropArxivPrefix (arxiv ++ (lead ++ (taken.flatten ++ q) ++ trail))) =
      strip (taken.flatten ++ q) := by
    rcases harxiv with rfl | harxiv
    · rw [List.nil_append, dropArxivPrefix_of_not fun a ha =>
        no_arxiv_prefix hid hq hlead htrail htaken ha, strip_blanks hlead htrail]
    · rw [dropArxivPrefix_append harxiv, strip_lstrip, strip_blanks hlead htrail]
  rcases strip_taken hid hq htaken with ⟨q', hq', hstrip⟩
  have hpaths : ∀ p ∈ pathPrefixes, ¬ p <+: q' := by
    intro p hp hpre
    have hne : p ≠ [] := by
      have hall : ∀ p ∈ pathPrefixes, p ≠ [] := by decide
      exact hall p hp
    refine hid.noPath p hp (prefix_of_cored hq' (solid_of_mem_pathPrefixes hp) hne .nil ?_)
    rwa [List.append_nil]
  rw [unwrap, hdrop, hstrip, removePrefixes_taken (by decide) htaken hpaths]
  exact strip_removeSuffix_cored hid hq'

/-! ## Twice -/

/-- `normalize_arxiv_id` with what `urlparse` raises: `rejects` is its check of a network location,
which looks at brackets and at characters outside of ASCII. -/
def normalizeArxivId? (rejects : Text → Bool) (value : String) : Except Exn String :=
  if rejects (urlNetloc (strip value.toList)) then .error (.valueError "Invalid IPv6 URL")
  else .ok (normalizeArxivId value)

theorem strip_normalizeChars (value : Text) :
    strip (normalizeChars value) = normalizeChars value := by
  rw [normalizeChars_eq, unwrap, strip_strip]

end Keys

end Huldra
