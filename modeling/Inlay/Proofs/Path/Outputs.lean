import Inlay.Proofs.Path.Climbing
import Inlay.Proofs.Path.Mirroring

/-!
# Paths under an output root

A mirrored path is spelled from the output root without the separators at its end, so it is a path
that descends from `trimmed root`, which is `tidy root` as long as these are slashes. The folder
around such a path is again one.
-/

namespace Inlay.Path

/-- An output root as it stands in front of what is below it. -/
def tidy (root : Path) : Path :=
  if Text.trimEnd (· == '/') root = [] then ['/'] else Text.trimEnd (· == '/') root

def Tidied (root : Path) : Prop :=
  root = ['/'] ∨ root ≠ [] ∧ root.getLast? ≠ some '/'

theorem getLast?_trimEnd_slash (root : Path) :
    (Text.trimEnd (· == '/') root).getLast? ≠ some '/' := by
  intro hl
  have hn := Text.getLast?_trimEnd hl
  simp at hn

theorem tidied_tidy (root : Path) : Tidied (tidy root) := by
  unfold tidy
  split
  · exact Or.inl rfl
  · next h => exact Or.inr ⟨h, getLast?_trimEnd_slash root⟩

theorem Tidied.ne_nil {root : Path} (h : Tidied root) : root ≠ [] := by
  rcases h with rfl | h
  · simp
  · exact h.1

/-- An output root without separators of either kind at its end. -/
def trimmed (root : Path) : Path :=
  if Text.trimEnd isSeparator root = [] then ['/'] else Text.trimEnd isSeparator root

theorem getLast?_trimEnd_separator (root : Path) :
    (Text.trimEnd isSeparator root).getLast? ≠ some '/' := by
  intro hl
  have hn := Text.getLast?_trimEnd hl
  simp [isSeparator] at hn

theorem tidied_trimmed (root : Path) : Tidied (trimmed root) := by
  unfold trimmed
  split
  · exact Or.inl rfl
  · next h => exact Or.inr ⟨h, getLast?_trimEnd_separator root⟩

theorem trimmed_eq_tidy {root : Path} (hr : IsRoot root) : trimmed root = tidy root := by
  rw [trimmed, tidy, trimEnd_isSeparator hr]

theorem under_trimmed {root : Path} (hr : root ≠ []) {names : List Text} (hne : names ≠ [])
    (h : ∀ n ∈ names, IsPiece n) :
    under root (Text.join '/' names) = descend (trimmed root) names := by
  rw [under, if_neg (by simpa using hr)]
  unfold trimmed
  split
  · next ht =>
    rw [ht, descend_eq (by simp) hne h]
    rfl
  · next ht =>
    rw [descend_eq ht hne h, gap, if_neg (getLast?_trimEnd_separator root)]
    simp

theorem under_join {root : Path} (hr : IsRoot root) {names : List Text} (hne : names ≠ [])
    (h : ∀ n ∈ names, IsPiece n) :
    under root (Text.join '/' names) = descend (tidy root) names := by
  rw [under_trimmed hr.1 hne h, trimmed_eq_tidy hr]

/-- Below an output root a file keeps some of its folders and the beginning of a name, which gets
the target extension. For a source extension without a slash these are all its folders and the stem
of its name. -/
theorem exists_mirror_descend {output target : Path} (hr : output ≠ [])
    (ht : target.head? = some '.') (hplain : '/' ∉ target ∧ '\\' ∉ target) (root source : Path)
    {names : List Text} (hne : names ≠ []) (h : ∀ n ∈ names, n ≠ [] ∧ '/' ∉ n ∧ '\\' ∉ n) :
    ∃ folders kept, folders <+: names ∧ (∀ c ∈ kept, ∃ n ∈ names, c ∈ n) ∧
      IsPiece (kept ++ target) ∧
      mirror (descend root names) root output target source =
        .ok (descend (trimmed output) (folders ++ [kept ++ target])) := by
  have hpieces : ∀ n ∈ names, IsPiece n := fun n hn => ⟨(h n hn).1, (h n hn).2.1⟩
  -- What follows the root is the path of the names, with or without a slash in front.
  obtain ⟨suffix, hsuffix, heq⟩ : ∃ suffix,
      (suffix = Text.join '/' names ∨ suffix = '/' :: Text.join '/' names) ∧
      descend root names = root ++ suffix := by
    by_cases hroot : root = []
    · exact ⟨_, Or.inl rfl, by rw [hroot, descend_empty hpieces, List.nil_append]⟩
    · rw [descend_eq hroot hne hpieces, List.append_assoc]
      refine ⟨_, ?_, rfl⟩
      unfold gap
      split
      · exact Or.inl rfl
      · exact Or.inr rfl
  obtain ⟨kept, hkept, hswap⟩ := exists_swapExtension suffix target source
  have hforward : forward kept <+: Text.join '/' names := by
    refine forward_prefix_join h ?_
    rcases hsuffix with rfl | rfl
    · exact Or.inl hkept
    · exact Or.inr hkept
  obtain ⟨folders, last, hf, hlast, hjoin⟩ :=
    exists_of_prefix_join (fun n hn => (h n hn).2.1) hforward
  have hpiece : IsPiece (last ++ target) := by
    refine ⟨fun hz => ?_, ?_⟩
    · rw [(List.append_eq_nil_iff.1 hz).2] at ht
      simp at ht
    · simpa using ⟨hlast, hplain.1⟩
  have hchars : ∀ c ∈ last, ∃ n ∈ names, c ∈ n := fun c hc => by
    have hin : c ∈ forward kept := by
      rw [hjoin, ← List.nil_append last, join_concat_append]
      exact List.mem_append_right _ hc
    rcases Text.mem_join (hforward.subset hin) with rfl | hn
    · exact absurd hc hlast
    · exact hn
  refine ⟨folders, last, hf, hchars, hpiece, ?_⟩
  rw [heq, mirror_of_append, hswap, forward_append ht, slashes_eq_self hplain.2, hjoin,
    ← join_concat_append, under_trimmed hr (by simp)]
  exact List.forall_mem_append.2
    ⟨fun n hn => hpieces n (hf.subset hn), List.forall_mem_singleton.2 hpiece⟩

theorem components_tidy (root : Path) : components (tidy root) = components root := by
  rw [← components_trimEnd root]
  unfold tidy
  split
  · next ht =>
    rw [ht]
    rfl
  · rfl

theorem isAbsolute_tidy {root : Path} (hr : root ≠ []) :
    isAbsolute (tidy root) = isAbsolute root := by
  obtain ⟨tail, hroot, htail⟩ := Text.exists_trimEnd_append (· == '/') root
  unfold tidy
  split
  · next ht =>
    rw [ht, List.nil_append] at hroot
    cases hc : root with
    | nil => exact absurd hc hr
    | cons c rest =>
      have hs := htail c (by rw [← hroot, hc]; exact List.mem_cons_self ..)
      rw [eq_of_beq hs]
      rfl
  · next ht =>
    have ha := isAbsolute_append ht tail
    rw [← hroot] at ha
    exact ha.symm

/-! ### The folder around a path -/

theorem slash_not_mem_base (path : Path) : '/' ∉ base path := by
  intro hm
  rw [base, cut, Text.cutLast, List.mem_reverse] at hm
  have hc := List.mem_takeWhile_imp hm
  simp at hc

theorem cut_fst (path : Path) : (cut path).1 = [] ∨ ∃ lead, (cut path).1 = lead ++ ['/'] := by
  rcases List.eq_nil_or_concat (cut path).1 with hz | ⟨lead, c, hc⟩
  · exact Or.inl hz
  · refine Or.inr ⟨lead, ?_⟩
    rw [List.concat_eq_append] at hc
    have hl : (cut path).1.getLast? = some c := by rw [hc, List.getLast?_concat]
    rw [cut, Text.cutLast, List.getLast?_reverse] at hl
    have hs : c = '/' := by
      simpa [hl] using List.head?_dropWhile_not (fun x => !(x == '/')) path.reverse
    rw [hc, hs]

/-- Of a path only the last name decides about an extension without a slash. -/
theorem hasExtension_base {extension : Text} (h : '/' ∉ extension) (path : Path) :
    hasExtension (base path) extension = hasExtension path extension := by
  have hpath : (cut path).1 ++ base path = path := Text.cutLast_append (· == '/') path
  rcases cut_fst path with hz | ⟨lead, hc⟩
  · rw [hz, List.nil_append] at hpath
    rw [hpath]
  · have hext := hasExtension_append_slash h lead (base path)
    rw [hc, List.append_assoc, List.singleton_append] at hpath
    rwa [hpath, eq_comm] at hext

theorem base_ne_nil {path : Path} (hne : path ≠ []) (hl : path.getLast? ≠ some '/') :
    base path ≠ [] := by
  intro hb
  have hpath : path = (cut path).1 ++ base path := (Text.cutLast_append (· == '/') path).symm
  rw [hb, List.append_nil] at hpath
  rcases cut_fst path with hz | ⟨lead, hc⟩
  · exact hne (hpath.trans hz)
  · rw [hpath, hc, List.getLast?_concat] at hl
    exact hl rfl

theorem exists_append_folder (path : Path) :
    ∃ tail, (cut path).1 = folder path ++ tail ∧ ∀ c ∈ tail, (c == '/') = true := by
  simp only [folder]
  split
  · exact ⟨[], by simp, by simp⟩
  · exact Text.exists_trimEnd_append (· == '/') (cut path).1

theorem components_folder {path : Path} (hb : base path ≠ []) :
    components path = components (folder path) ++ [base path] := by
  obtain ⟨tail, hcut, htail⟩ := exists_append_folder path
  have hname : components (base path) = [base path] := by
    simp [components, Text.split_of_not_mem (slash_not_mem_base path), hb]
  have hpath : path = (cut path).1 ++ base path := (Text.cutLast_append (· == '/') path).symm
  rcases cut_fst path with hz | ⟨lead, hc⟩
  · rw [hz] at hcut
    have hf : folder path = [] := (List.append_eq_nil_iff.1 hcut.symm).1
    rw [hz, List.nil_append] at hpath
    rw [hf, components_nil, List.nil_append, ← hname, ← hpath]
  · have hf : components (folder path) = components lead := by
      rw [← components_append_slashes (folder path) tail htail, ← hcut, hc,
        components_append_slash, components_nil, List.append_nil]
    rw [hf, ← hname, ← components_append_slash]
    rw [hc, List.append_assoc, List.singleton_append] at hpath
    rw [← hpath]

theorem isAbsolute_folder {path : Path} (hf : folder path ≠ []) :
    isAbsolute path = isAbsolute (folder path) := by
  obtain ⟨tail, hcut, _⟩ := exists_append_folder path
  have hpath : path = (cut path).1 ++ base path := (Text.cutLast_append (· == '/') path).symm
  rw [hcut, List.append_assoc] at hpath
  have ha := isAbsolute_append hf (tail ++ base path)
  rwa [← hpath] at ha

theorem folder_join {root : Path} (h : Tidied root) {name : Text} (hn : IsPiece name) :
    folder (join root name) = root := by
  rw [join_of_ne_nil h.ne_nil (isAbsolute_piece hn)]
  rcases h with rfl | ⟨hne, hl⟩
  · have hc := cut_append_slash hn.2 []
    rw [List.nil_append] at hc
    rw [show ['/'] ++ gap ['/'] ++ name = '/' :: name from rfl, folder, hc]
    rfl
  · have hc := cut_append_slash hn.2 root
    rw [gap, if_neg hl, List.append_assoc, List.singleton_append, folder, hc]
    have hall : (root ++ ['/']).all (· == '/') = false := by
      rcases List.eq_nil_or_concat root with rfl | ⟨lead, c, rfl⟩
      · exact absurd rfl hne
      · rw [List.concat_eq_append] at hl
        have hc' : c ≠ '/' := by simpa using hl
        simp [hc']
    simp only [hall, Bool.false_eq_true, if_false]
    rw [Text.trimEnd_append_of_all root ['/'] (by simp)]
    refine Text.trimEnd_eq_self fun c hcl => ?_
    have hne' : c ≠ '/' := fun e => hl (e ▸ hcl)
    simpa using hne'

theorem Tidied.descend {root : Path} (hr : Tidied root) {names : List Text}
    (h : ∀ n ∈ names, IsPiece n) : Tidied (descend root names) := by
  rcases List.eq_nil_or_concat names with rfl | ⟨names, name, rfl⟩
  · exact hr
  · rw [List.concat_eq_append] at h ⊢
    have hn := h name (by simp)
    exact Or.inr ⟨descend_ne_nil hr.ne_nil h, getLast?_descend_concat root names hn⟩

theorem folder_descend {root : Path} (hr : Tidied root) {names : List Text} {name : Text}
    (h : ∀ n ∈ names, IsPiece n) (hn : IsPiece name) :
    folder (Path.descend root (names ++ [name])) = Path.descend root names := by
  rw [descend_append]
  exact folder_join (hr.descend h) hn

end Inlay.Path
