import Inlay.Proofs.Path.Components

/-!
# Mirrored names

What `mirror` makes of a path below a root, said on its names. With an extension that holds no
slash only the last name changes, and a source keeps its folders and the stem of its name.
-/

namespace Inlay.Path

def slashes (t : Text) : Text :=
  t.map fun c => if c == '\\' then '/' else c

/-- The names of a source below its root, as they stand below the output root. -/
def mirrored (target source : Text) (names : List Text) : Path :=
  forward (swapExtension (Text.join '/' names) target source)

/-! ### Extensions -/

/-- An extension that names are built with: a point first, and no separator of either kind. -/
structure IsExtension (extension : Text) : Prop where
  head : extension.head? = some '.'
  slash : '/' ∉ extension
  backslash : '\\' ∉ extension

theorem IsExtension.ne_nil {extension : Text} (h : IsExtension extension) : extension ≠ [] :=
  List.ne_nil_of_mem (List.mem_of_head? h.head)

theorem suffix_append_cons_iff {extension : Text} {c : Char} (h : c ∉ extension)
    (lead name : Text) : extension <:+ lead ++ c :: name ↔ extension <:+ name := by
  constructor
  · intro hs
    rcases List.suffix_or_suffix_of_suffix hs (List.suffix_append lead (c :: name)) with hn | hn
    · rcases List.suffix_cons_iff.1 hn with he | hn
      · exact absurd (he ▸ List.mem_cons_self ..) h
      · exact hn
    · exact absurd (hn.subset (List.mem_cons_self ..)) h
  · intro hs
    exact (hs.trans (List.suffix_cons c name)).trans (List.suffix_append _ _)

theorem hasExtension_append_slash {extension : Text} (h : '/' ∉ extension) (lead name : Path) :
    hasExtension (lead ++ '/' :: name) extension = hasExtension name extension := by
  rw [Bool.eq_iff_iff]
  simp only [hasExtension, List.isSuffixOf_iff_suffix]
  exact suffix_append_cons_iff h lead name

theorem exists_descend_concat (root : Path) (names : List Text) {name : Text} (h : IsPiece name) :
    descend root (names ++ [name]) = name ∨
      ∃ lead, descend root (names ++ [name]) = lead ++ '/' :: name := by
  rw [descend_append, show descend (descend root names) [name] = join (descend root names) name
    from rfl]
  rcases List.eq_nil_or_concat (descend root names) with hd | ⟨lead, c, hd⟩
  · exact Or.inl (by rw [hd, join_nil])
  · rw [List.concat_eq_append] at hd
    rw [hd, join_of_ne_nil (by simp) (isAbsolute_piece h)]
    by_cases hc : c = '/'
    · subst hc
      exact Or.inr ⟨lead, by simp [gap]⟩
    · exact Or.inr ⟨lead ++ [c], by simp [gap, hc]⟩

theorem hasExtension_descend {extension : Text} (h : '/' ∉ extension) (root : Path)
    (names : List Text) {name : Text} (hn : IsPiece name) :
    hasExtension (descend root (names ++ [name])) extension = hasExtension name extension := by
  rcases exists_descend_concat root names hn with he | ⟨lead, he⟩
  · rw [he]
  · rw [he, hasExtension_append_slash h]

theorem cut_piece {name : Text} (h : '/' ∉ name) : cut name = ([], name) := by
  refine Text.cutLast_of_forall fun c hc => ?_
  have hne : c ≠ '/' := fun e => h (e ▸ hc)
  simpa using hne

theorem cut_append_slash {name : Text} (h : '/' ∉ name) (lead : Path) :
    cut (lead ++ '/' :: name) = (lead ++ ['/'], name) := by
  refine Text.cutLast_append_cons rfl (fun c hc => ?_) lead
  have hne : c ≠ '/' := fun e => h (e ▸ hc)
  simpa using hne

theorem base_append_slash {name : Text} (h : '/' ∉ name) (lead : Path) :
    base (lead ++ '/' :: name) = name := by
  rw [base, cut_append_slash h]

theorem base_descend (root : Path) (names : List Text) {name : Text} (hn : IsPiece name) :
    base (descend root (names ++ [name])) = name := by
  rcases exists_descend_concat root names hn with he | ⟨lead, he⟩
  · rw [he, base, cut_piece hn.2]
  · rw [he, base_append_slash hn.2]

theorem base_descend_ne_nil (root : Path) {names : List Text} (hne : names ≠ [])
    (h : ∀ n ∈ names, IsPiece n) : base (descend root names) ≠ [] := by
  obtain ⟨lead, name, rfl⟩ := (List.eq_nil_or_concat names).resolve_left hne
  rw [List.concat_eq_append] at h ⊢
  have hn := h name (List.mem_append_right _ (List.mem_singleton_self _))
  rw [base_descend root lead hn]
  exact hn.1

/-! ### Swapping -/

theorem dropSuffix?_append_cons {source : Text} {c : Char} (h : c ∉ source) (lead name : Path) :
    Text.dropSuffix? source (lead ++ c :: name) =
      (Text.dropSuffix? source name).map (lead ++ c :: ·) := by
  cases hd : Text.dropSuffix? source name with
  | some kept =>
    rw [Text.dropSuffix?_eq_some_iff] at hd
    exact Text.dropSuffix?_eq_some_iff.2 (by simp [hd])
  | none =>
    cases hd' : Text.dropSuffix? source (lead ++ c :: name) with
    | none => rfl
    | some kept =>
      obtain ⟨kept', hkept⟩ := (suffix_append_cons_iff h lead name).1
        ⟨kept, (Text.dropSuffix?_eq_some_iff.1 hd').symm⟩
      rw [Text.dropSuffix?_eq_some_iff.2 hkept.symm] at hd
      simp at hd

/-- What stands in front of a separator stays, with an extension that does not hold it. -/
theorem swapExtension_append_separator {source : Text} {c : Char} (hc : isSeparator c = true)
    (h : c ∉ source) (lead name target : Path) :
    swapExtension (lead ++ c :: name) target source =
      lead ++ c :: swapExtension name target source := by
  have hcut := Text.cutLast_append_of_pos hc lead name
  by_cases hs : source = []
  · simp [swapExtension, dropExtension?, hs, hcut]
  · simp only [swapExtension, dropExtension?, List.isEmpty_iff, if_neg hs,
      dropSuffix?_append_cons h]
    cases Text.dropSuffix? source name with
    | some kept => simp
    | none => simp [hcut]

/-- Only the last name changes with an extension that holds no slash. -/
theorem swapExtension_append_slash {source : Text} (h : '/' ∉ source) (lead name target : Path) :
    swapExtension (lead ++ '/' :: name) target source =
      lead ++ '/' :: swapExtension name target source :=
  swapExtension_append_separator rfl h lead name target

theorem stem_prefix_self (name : Text) : stem name <+: name := by
  have hcut := Text.cutLast_append (· == '.') name
  unfold stem
  simp only
  split
  · exact List.prefix_refl name
  · exact (List.dropLast_prefix _).trans ⟨_, hcut⟩

theorem exists_swapExtension (path target source : Text) :
    ∃ kept, kept <+: path ∧ swapExtension path target source = kept ++ target := by
  unfold swapExtension
  cases hd : dropExtension? path source with
  | some kept =>
    refine ⟨kept, ?_, rfl⟩
    unfold dropExtension? at hd
    split at hd
    · simp at hd
    · exact ⟨source, (Text.dropSuffix?_eq_some_iff.1 hd).symm⟩
  | none =>
    have hcut := Text.cutLast_append isSeparator path
    refine ⟨(Text.cutLast isSeparator path).1 ++ stem (Text.cutLast isSeparator path).2, ?_, rfl⟩
    conv => rhs; rw [← hcut]
    exact (List.prefix_append_right_inj _).2 (stem_prefix_self _)

theorem join_concat_append (c : Char) (ps : List Text) (a b : Text) :
    Text.join c (ps ++ [a ++ b]) = Text.join c (ps ++ [a]) ++ b := by
  cases ps with
  | nil => simp [Text.join]
  | cons p ps =>
    rw [Text.join_append c (by simp) (by simp), Text.join_append c (by simp) (by simp)]
    simp [Text.join]

theorem swapExtension_join {source : Text} (h : source ≠ []) (folders : List Text)
    (kept target : Text) :
    swapExtension (Text.join '/' (folders ++ [kept ++ source])) target source =
      Text.join '/' (folders ++ [kept ++ target]) := by
  rw [join_concat_append, swapExtension_append h, ← join_concat_append]

/-! ### Forward separators -/

theorem swapExtension_descend {old new : Text} (ho : old ≠ []) (root : Path)
    (folders : List Text) {kept : Text} (hold : IsPiece (kept ++ old))
    (hnew : IsPiece (kept ++ new)) :
    swapExtension (descend root (folders ++ [kept ++ old])) new old =
      descend root (folders ++ [kept ++ new]) := by
  obtain ⟨lead, hlead⟩ := exists_lead root folders
  rw [hlead _ hold, hlead _ hnew, ← List.append_assoc, swapExtension_append ho, List.append_assoc]

theorem forward_cons_slash (path : Path) : forward ('/' :: path) = forward path := by
  simp [forward]

theorem forward_append {tail : Text} (h : tail.head? = some '.') (path : Path) :
    forward (path ++ tail) = forward path ++ slashes tail := by
  have ht : (slashes tail).dropWhile (· == '/') = slashes tail := by
    cases tail with
    | nil => rfl
    | cons c rest =>
      have hc : c = '.' := by simpa using h
      simp [slashes, hc]
  simp only [forward, List.map_append, List.dropWhile_append]
  split
  · next he =>
    rw [List.isEmpty_iff.1 he]
    exact ht
  · rfl

theorem slashes_eq_self {t : Text} (h : '\\' ∉ t) : slashes t = t := by
  rw [slashes, List.map_congr_left (g := id), List.map_id]
  intro c hc
  have hne : c ≠ '\\' := fun e => h (e ▸ hc)
  simp [hne]

theorem forward_join {names : List Text} (h : ∀ n ∈ names, n ≠ [] ∧ '/' ∉ n ∧ '\\' ∉ n) :
    forward (Text.join '/' names) = Text.join '/' names := by
  have hb : '\\' ∉ Text.join '/' names := by
    intro hm
    rcases Text.mem_join hm with he | ⟨n, hn, hc⟩
    · simp at he
    · exact (h n hn).2.2 hc
  rw [forward, ← slashes, slashes_eq_self hb]
  cases names with
  | nil => rfl
  | cons n names =>
    have hn := h n (List.mem_cons_self ..)
    cases hne : n with
    | nil => exact absurd hne hn.1
    | cons c rest =>
      have hc : c ≠ '/' := fun e => hn.2.1 (by rw [hne, e]; exact List.mem_cons_self ..)
      cases names with
      | nil => simp [Text.join, hc]
      | cons m names => simp [Text.join_cons_cons, hc]

/-- The beginning of a path is made of its first names and the beginning of the next one. -/
theorem exists_of_prefix_join {names : List Text} (h : ∀ n ∈ names, '/' ∉ n) {lead : Path}
    (hl : lead <+: Text.join '/' names) :
    ∃ folders kept, folders <+: names ∧ '/' ∉ kept ∧ lead = Text.join '/' (folders ++ [kept]) := by
  induction names generalizing lead with
  | nil =>
    obtain rfl := List.prefix_nil.1 hl
    exact ⟨[], [], List.nil_prefix, by simp, by simp [Text.join]⟩
  | cons n names ih =>
    have hn := h n (List.mem_cons_self ..)
    by_cases hfirst : lead <+: n
    · exact ⟨[], lead, List.nil_prefix, fun hm => hn (hfirst.subset hm), by simp [Text.join]⟩
    · cases names with
      | nil => exact absurd (by simpa [Text.join] using hl) hfirst
      | cons m names =>
        rw [Text.join_cons_cons] at hl
        obtain ⟨rest, rfl⟩ :=
          (List.prefix_or_prefix_of_prefix hl (List.prefix_append n _)).resolve_left hfirst
        rw [List.prefix_append_right_inj] at hl
        cases rest with
        | nil => simp at hfirst
        | cons c rest =>
          obtain ⟨rfl, hrest⟩ := List.cons_prefix_cons.1 hl
          obtain ⟨folders, kept, hf, hk, hr⟩ :=
            ih (fun x hx => h x (List.mem_cons_of_mem _ hx)) hrest
          refine ⟨n :: folders, kept, List.cons_prefix_cons.2 ⟨rfl, hf⟩, hk, ?_⟩
          rw [hr, List.cons_append]
          cases folders with
          | nil => simp [Text.join]
          | cons x folders => rw [List.cons_append, Text.join_cons_cons]

theorem forward_prefix_join {names : List Text} (h : ∀ n ∈ names, n ≠ [] ∧ '/' ∉ n ∧ '\\' ∉ n)
    {kept : Text} (hk : kept <+: Text.join '/' names ∨ kept <+: '/' :: Text.join '/' names) :
    forward kept <+: Text.join '/' names := by
  have hjoin := forward_join h
  have hprefix {a b : Text} (hab : a <+: b) : forward a <+: forward b := by
    obtain ⟨rest, rfl⟩ := hab
    simp only [forward, List.map_append, List.dropWhile_append]
    split
    · next he =>
      rw [List.isEmpty_iff.1 he]
      exact List.nil_prefix
    · exact List.prefix_append _ _
  rcases hk with hk | hk
  · exact hjoin ▸ hprefix hk
  · have hslash := hprefix hk
    rwa [forward_cons_slash, hjoin] at hslash

/-! ### Mirroring -/

theorem mirror_descend {source : Text} (hs : '/' ∉ source) (root output target : Text)
    {names : List Text} (hne : names ≠ []) (h : ∀ n ∈ names, IsPiece n) :
    mirror (descend root names) root output target source =
      .ok (under output (mirrored target source names)) := by
  by_cases hr : root = []
  · subst hr
    rw [descend_empty h]
    exact mirror_of_append [] (Text.join '/' names) output target source
  · rw [descend_eq hr hne h, List.append_assoc, mirror_of_append, mirrored, gap]
    split
    · rw [List.nil_append]
    · rw [List.singleton_append, ← List.nil_append ('/' :: _), swapExtension_append_slash hs,
        List.nil_append, forward_cons_slash]

theorem mirrored_source {source : Text} (hs : source ≠ []) (folders : List Text)
    {kept target : Text} (h : ∀ n ∈ folders, n ≠ [] ∧ '/' ∉ n ∧ '\\' ∉ n)
    (hk : kept ++ target ≠ [] ∧ '/' ∉ kept ++ target ∧ '\\' ∉ kept ++ target) :
    mirrored target source (folders ++ [kept ++ source]) =
      Text.join '/' (folders ++ [kept ++ target]) := by
  rw [mirrored, swapExtension_join hs, forward_join]
  intro n hn
  rcases List.mem_append.1 hn with hn | hn
  · exact h n hn
  · rwa [List.mem_singleton.1 hn]

theorem hasExtension_under_forward {target : Text} (ht : target.head? = some '.')
    (output suffix source : Text) :
    hasExtension (under output (forward (swapExtension suffix target source))) (slashes target) =
      true := by
  obtain ⟨kept, _, hk⟩ := exists_swapExtension suffix target source
  rw [hasExtension_iff, hk, forward_append ht, under]
  split
  · exact ⟨_, rfl⟩
  · exact ⟨Text.trimEnd isSeparator output ++ '/' :: forward kept, by simp⟩

theorem hasExtension_of_mirror {target : Text} (ht : target.head? = some '.')
    {path root output source place : Text}
    (h : mirror path root output target source = .ok place) :
    hasExtension place (slashes target) = true := by
  unfold mirror at h
  cases hs : suffixUnder path root with
  | error m => simp [hs, Except.map] at h
  | ok suffix =>
    rw [hs] at h
    obtain rfl := Except.ok.inj h
    exact hasExtension_under_forward ht output suffix source

end Inlay.Path
