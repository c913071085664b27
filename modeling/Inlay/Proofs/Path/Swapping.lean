import Inlay.Proofs.Path.Outputs

/-!
# Paths with another extension

A path is unchanged by a swap exactly if it ends with the new extension, and with nothing that is
replaced by it (`swapExtension_eq_self_iff`). With extensions that hold no slash only the last name
is another one (`cut_swapExtension`). A file and its output are found from each other: swapping the
extensions back gives the path exactly if it has the old one (`swap_undone`).
-/

namespace Inlay.Path

/-! ### The stem of a name -/

theorem stem_append_point {tail : Text} (h : '.' ∉ tail) (lead : Text) :
    stem (lead ++ '.' :: tail) = lead := by
  have hcut : Text.cutLast (· == '.') (lead ++ '.' :: tail) = (lead ++ ['.'], tail) := by
    refine Text.cutLast_append_cons rfl (fun c hc => ?_) lead
    have hne : c ≠ '.' := fun e => h (e ▸ hc)
    simpa using hne
  simp [stem, hcut]

theorem stem_of_not_mem {name : Text} (h : '.' ∉ name) : stem name = name := by
  have hcut : Text.cutLast (· == '.') name = ([], name) := by
    refine Text.cutLast_of_forall fun c hc => ?_
    have hne : c ≠ '.' := fun e => h (e ▸ hc)
    simpa using hne
  simp [stem, hcut]

theorem eq_of_suffix_point {tail last lead : Text} (htail : '.' ∉ tail) (hlast : '.' ∉ last)
    (h : '.' :: tail <:+ lead ++ '.' :: last) : tail = last := by
  have hother : '.' :: last <:+ lead ++ '.' :: last := List.suffix_append ..
  rcases List.suffix_or_suffix_of_suffix h hother with hs | hs
  · rcases List.suffix_cons_iff.1 hs with he | hs
    · exact (List.cons.inj he).2
    · exact absurd (hs.subset (List.mem_cons_self ..)) hlast
  · rcases List.suffix_cons_iff.1 hs with he | hs
    · exact (List.cons.inj he).2.symm
    · exact absurd (hs.subset (List.mem_cons_self ..)) htail

theorem stem_append_eq_iff {name tail : Text} :
    stem name ++ '.' :: tail = name ↔ '.' :: tail <:+ name ∧ '.' ∉ tail := by
  rcases Text.cases_last (· == '.') name with hnone | ⟨lead, c, last, rfl, hc, hlast⟩
  · have hname : '.' ∉ name := fun hm => by simpa using hnone '.' hm
    rw [stem_of_not_mem hname]
    refine iff_of_false (fun h => hname ?_) fun h => hname (h.1.subset (List.mem_cons_self ..))
    rw [← h]
    exact List.mem_append_right _ (List.mem_cons_self ..)
  · obtain rfl : c = '.' := by simpa using hc
    have hfree : '.' ∉ last := fun hm => by simpa using hlast '.' hm
    rw [stem_append_point hfree]
    constructor
    · intro h
      have heq := List.append_cancel_left h
      exact ⟨heq ▸ List.suffix_append .., (List.cons.inj heq).2 ▸ hfree⟩
    · rintro ⟨hs, htail⟩
      rw [eq_of_suffix_point htail hfree hs]

/-! ### A swap that changes nothing -/

theorem isSeparator_of_mem_last {path : Path} :
    ∀ c ∈ (Text.cutLast isSeparator path).2, isSeparator c = false := by
  rcases Text.cases_last isSeparator path with hnone | ⟨front, c, name, rfl, hc, hname⟩
  · rwa [Text.cutLast_of_forall hnone]
  · rwa [Text.cutLast_append_cons hc hname]

theorem suffix_last {path extension : Text} (hplain : ∀ c ∈ extension, isSeparator c = false)
    (h : extension <:+ path) : extension <:+ (Text.cutLast isSeparator path).2 := by
  rcases Text.cases_last isSeparator path with hnone | ⟨front, c, name, rfl, hc, hname⟩
  · rwa [Text.cutLast_of_forall hnone]
  · have hout : c ∉ extension := fun hm => by simp [hplain c hm] at hc
    rw [Text.cutLast_append_cons hc hname]
    exact (suffix_append_cons_iff hout front name).1 h

theorem swapExtension_of_not_source {source : Text} (hs : source ≠ []) {path : Path}
    (h : ¬ source <:+ path) (target : Text) :
    swapExtension path target source = (Text.cutLast isSeparator path).1 ++
      (stem (Text.cutLast isSeparator path).2 ++ target) := by
  have hnone : dropExtension? path source = none := by
    rw [dropExtension?, if_neg (by simpa using hs)]
    cases hd : Text.dropSuffix? source path with
    | none => rfl
    | some kept => exact absurd ⟨kept, (Text.dropSuffix?_eq_some_iff.1 hd).symm⟩ h
  simp only [swapExtension, hnone, List.append_assoc]

/-- The output beside a file is the file itself exactly if the file has the target extension, of
which a swap sees all, and not the source extension. -/
theorem swapExtension_eq_self_iff {source target path : Text} (hs : source ≠ [])
    (ht : target.head? = some '.') (hne : source ≠ target) :
    swapExtension path target source = path ↔
      ¬ source <:+ path ∧ target <:+ path ∧
        ∀ c ∈ target.tail, c ≠ '.' ∧ isSeparator c = false := by
  obtain ⟨tail, rfl⟩ : ∃ tail, target = '.' :: tail := List.head?_eq_some_iff.1 ht
  by_cases hsource : source <:+ path
  · obtain ⟨kept, rfl⟩ := hsource
    rw [swapExtension_append hs]
    exact iff_of_false (fun h => hne (List.append_cancel_left h).symm)
      fun h => h.1 (List.suffix_append ..)
  · have hsplit := Text.cutLast_append isSeparator path
    have hself : swapExtension path ('.' :: tail) source = path ↔
        '.' :: tail <:+ (Text.cutLast isSeparator path).2 ∧ '.' ∉ tail := by
      rw [swapExtension_of_not_source hs hsource, ← stem_append_eq_iff]
      conv => lhs; rhs; rw [← hsplit]
      exact List.append_right_inj _
    rw [hself]
    constructor
    · rintro ⟨hsuffix, hpoint⟩
      refine ⟨hsource, hsplit ▸ hsuffix.trans (List.suffix_append ..), fun c hc => ⟨?_, ?_⟩⟩
      · rintro rfl
        exact hpoint hc
      · exact isSeparator_of_mem_last c (hsuffix.subset (List.mem_cons_of_mem _ hc))
    · rintro ⟨_, hsuffix, htail⟩
      have hplain : ∀ c ∈ '.' :: tail, isSeparator c = false :=
        List.forall_mem_cons.2 ⟨rfl, fun c hc => (htail c hc).2⟩
      exact ⟨suffix_last hplain hsuffix, fun hm => (htail '.' hm).1 rfl⟩

/-! ### The last name -/

section
variable {source target : Text} (hs : '/' ∉ source) (ht : '/' ∉ target) (path : Path)
include hs ht

/-- A path and the one with another extension have the same names in front of their last ones. -/
theorem cut_swapExtension :
    cut (swapExtension path target source) =
      ((cut path).1, swapExtension (base path) target source) := by
  have hplain {name : Path} (hname : '/' ∉ name) : '/' ∉ swapExtension name target source := by
    obtain ⟨kept, hkept, he⟩ := exists_swapExtension name target source
    rw [he, List.mem_append, not_or]
    exact ⟨fun hm => hname (hkept.subset hm), ht⟩
  rcases Text.cases_last (· == '/') path with hnone | ⟨lead, c, name, rfl, hc, hname⟩
  · have hpath : '/' ∉ path := fun hm => by simpa using hnone '/' hm
    rw [base, cut_piece hpath, cut_piece (hplain hpath)]
  · obtain rfl : c = '/' := by simpa using hc
    have hfree : '/' ∉ name := fun hm => by simpa using hname '/' hm
    rw [base, cut_append_slash hfree, swapExtension_append_slash hs,
      cut_append_slash (hplain hfree)]

theorem swapExtension_eq_of_base
    (h : base (swapExtension path target source) = base path) :
    swapExtension path target source = path := by
  have hcut := cut_swapExtension hs ht path
  have hswapped := Text.cutLast_append (· == '/') (swapExtension path target source)
  rw [← cut] at hswapped
  rw [← hswapped, ← base, h, hcut]
  exact Text.cutLast_append (· == '/') path

end

/-! ### Swapping back -/

theorem suffix_swapExtension (path new old : Text) : new <:+ swapExtension path new old := by
  obtain ⟨kept, _, he⟩ := exists_swapExtension path new old
  exact ⟨kept, he.symm⟩

/-- The way back ends with the old extension, so it does not lead to a path that has another. -/
theorem swapExtension_swapExtension_eq_self_iff {old new : Text} (ho : old ≠ []) (hn : new ≠ [])
    (path : Path) :
    swapExtension (swapExtension path new old) old new = path ↔ old <:+ path := by
  constructor
  · intro h
    rw [← h]
    exact suffix_swapExtension _ old new
  · rintro ⟨kept, rfl⟩
    rw [swapExtension_append ho, swapExtension_append hn]

theorem IsExtension.not_mem_of_isSeparator {extension : Text} (h : IsExtension extension) {c : Char}
    (hc : isSeparator c = true) : c ∉ extension := by
  have hcases : c = '/' ∨ c = '\\' := by simpa [isSeparator] using hc
  rcases hcases with rfl | rfl
  · exact h.slash
  · exact h.backslash

/-- A swap gives a path with the new extension, keeps everything up to any separator of either
kind, and is undone by the swap back exactly if the path had the old extension. -/
theorem swap_undone {old new : Text} (ho : IsExtension old) (hn : IsExtension new) (path : Path) :
    new <:+ swapExtension path new old ∧
      (∀ lead c name, path = lead ++ c :: name → isSeparator c = true →
        swapExtension path new old = lead ++ c :: swapExtension name new old) ∧
      (swapExtension (swapExtension path new old) old new = path ↔ old <:+ path) := by
  refine ⟨suffix_swapExtension path new old, ?_,
    swapExtension_swapExtension_eq_self_iff ho.ne_nil hn.ne_nil path⟩
  rintro lead c name rfl hc
  exact swapExtension_append_separator hc (ho.not_mem_of_isSeparator hc) lead name new

/-- Extensions of several points, below a folder with a point, behind a backslash. -/
theorem swap_undone_of_templates :
    swapExtension "C:\\site.d\\a.tea.html".toList ".min.php".toList ".tea.html".toList =
        "C:\\site.d\\a.min.php".toList ∧
      swapExtension "C:\\site.d\\a.min.php".toList ".tea.html".toList ".min.php".toList =
        "C:\\site.d\\a.tea.html".toList := by
  have hold : IsExtension ".tea.html".toList := ⟨rfl, by decide, by decide⟩
  have hnew : IsExtension ".min.php".toList := ⟨rfl, by decide, by decide⟩
  obtain ⟨_, hlocal, hback⟩ := swap_undone hold hnew "C:\\site.d\\a.tea.html".toList
  have hswap : swapExtension "C:\\site.d\\a.tea.html".toList ".min.php".toList
      ".tea.html".toList = "C:\\site.d\\a.min.php".toList :=
    hlocal "C:\\site.d".toList '\\' "a.tea.html".toList rfl rfl
  refine ⟨hswap, ?_⟩
  rw [← hswap]
  exact hback.2 ⟨"C:\\site.d\\a".toList, rfl⟩

end Inlay.Path
