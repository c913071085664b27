import Inlay.Proofs.Compile.Plan

/-!
# The place of a source below an output root

The files of a tree with the source extension are mirrored without loss: each keeps its folders and
the beginning of its name, so that its names can be read off its place again. Neither root has to be
in any normal form; of the output root only the separators at its end are left out.
-/

namespace Inlay

namespace Path

/-- The names from a root down to a file with the extension. -/
structure NamesFile (extension : Text) (names : List Text) : Prop where
  ne_nil : names ≠ []
  plain : ∀ n ∈ names, IsName n ∧ '\\' ∉ n
  suffix : ∀ last ∈ names.getLast?, extension <:+ last

theorem NamesFile.exists_way {extension : Text} {names : List Text}
    (h : NamesFile extension names) : ∃ x : Stem, names = x.way extension := by
  obtain ⟨folders, last, rfl⟩ := (List.eq_nil_or_concat names).resolve_left h.ne_nil
  rw [List.concat_eq_append] at h ⊢
  obtain ⟨kept, rfl⟩ := h.suffix last (List.getLast?_concat ..)
  exact ⟨⟨folders, kept⟩, rfl⟩

theorem under_of_ne_nil {output : Path} (ho : output ≠ []) (relative : Path) :
    under output relative = Text.trimEnd isSeparator output ++ '/' :: relative := by
  rw [under, if_neg (by simpa using ho)]

end Path

namespace Compile

section
variable {source target : Text} (hs : Path.IsExtension source) (ht : Path.IsExtension target)
include hs ht

/-- A source and where it goes are one stem with two extensions. -/
theorem mirror_way {x : Stem} (hx : ∀ n ∈ x.way source, Path.IsName n ∧ '\\' ∉ n)
    (root : Path) {output : Path} (ho : output ≠ []) :
    Path.mirror (Path.descend root (x.way source)) root output target source =
      .ok (Text.trimEnd Path.isSeparator output ++ '/' :: Text.join '/' (x.way target)) := by
  have hplace := congrArg Job.output
    (jobOf_eq hx ⟨ht.ne_nil, ht.slash, ht.backslash⟩ hs.ne_nil root output)
  rw [Path.mirror_descend hs.slash root output target (x.way_ne_nil source) fun n hn =>
    (hx n hn).1.isPiece]
  exact congrArg Except.ok (hplace.trans (Path.under_of_ne_nil ho _))

omit hs in
theorem slash_not_mem_way {x : Stem} (hx : ∀ n ∈ x.way source, Path.IsName n ∧ '\\' ∉ n) :
    ∀ n ∈ x.way target, '/' ∉ n := by
  intro n hn
  rcases List.mem_append.1 hn with hn | hn
  · exact (isName_of_mem_folders hx n hn).2.1
  · rw [List.mem_singleton.1 hn]
    exact (isPiece_output hx ⟨ht.ne_nil, ht.slash, ht.backslash⟩).1.2

theorem mirror_way_injective {x y : Stem} (hx : ∀ n ∈ x.way source, Path.IsName n ∧ '\\' ∉ n)
    (hy : ∀ n ∈ y.way source, Path.IsName n ∧ '\\' ∉ n) {root output : Path} (ho : output ≠ [])
    (h : Path.mirror (Path.descend root (x.way source)) root output target source =
      Path.mirror (Path.descend root (y.way source)) root output target source) : x = y := by
  rw [mirror_way hs ht hx root ho, mirror_way hs ht hy root ho] at h
  have hjoin : Text.join '/' (x.way target) = Text.join '/' (y.way target) :=
    (List.cons.inj (List.append_cancel_left (Except.ok.inj h))).2
  have hway : x.way target = y.way target := by
    rw [← Text.split_join (x.way_ne_nil target) (slash_not_mem_way ht hx), hjoin,
      Text.split_join (y.way_ne_nil target) (slash_not_mem_way ht hy)]
  exact Stem.way_injective target hway

/-- Every source below a root has a place below the output root, spelled with its own names, and
no two sources have the same one. -/
theorem sources_mirrored (root : Path) {output : Path} (ho : output ≠ []) :
    (∀ names, Path.NamesFile source names →
      ∃ folders kept, names = folders ++ [kept ++ source] ∧
        Path.mirror (Path.descend root names) root output target source =
          .ok (Text.trimEnd Path.isSeparator output ++
            '/' :: Text.join '/' (folders ++ [kept ++ target]))) ∧
    ∀ names other, Path.NamesFile source names → Path.NamesFile source other → names ≠ other →
      Path.mirror (Path.descend root names) root output target source ≠
        Path.mirror (Path.descend root other) root output target source := by
  refine ⟨fun names hn => ?_, fun names other hn hother hne heq => hne ?_⟩
  · obtain ⟨x, rfl⟩ := hn.exists_way
    exact ⟨x.folders, x.kept, rfl, mirror_way hs ht hn.plain root ho⟩
  · obtain ⟨x, rfl⟩ := hn.exists_way
    obtain ⟨y, rfl⟩ := hother.exists_way
    rw [mirror_way_injective hs ht hn.plain hother.plain ho heq]

end

/-- A root with separators of both kinds at its end, and a name that is only an extension. -/
theorem sources_mirrored_of_spelled_root :
    Path.mirror "in//sub.d/.tea".toList "in//".toList "/out/\\/".toList ".php".toList
        ".tea".toList = .ok "/out/sub.d/.php".toList ∧
      Path.mirror "in//sub.d/.tea".toList "in//".toList "/out/\\/".toList ".php".toList
        ".tea".toList ≠
      Path.mirror "in//a.min.tea".toList "in//".toList "/out/\\/".toList ".php".toList
        ".tea".toList := by
  have hsource : Path.IsExtension ".tea".toList := ⟨rfl, by decide, by decide⟩
  have htarget : Path.IsExtension ".php".toList := ⟨rfl, by decide, by decide⟩
  have hnames : Path.NamesFile ".tea".toList ["sub.d".toList, ".tea".toList] :=
    ⟨by simp, by decide, by decide⟩
  have hother : Path.NamesFile ".tea".toList ["a.min.tea".toList] :=
    ⟨by simp, by decide, by decide⟩
  obtain ⟨hplace, hdistinct⟩ := sources_mirrored hsource htarget "in//".toList
    (show "/out/\\/".toList ≠ [] by simp)
  obtain ⟨folders, kept, hsplit, hmirror⟩ := hplace _ hnames
  obtain ⟨rfl, rfl⟩ : folders = ["sub.d".toList] ∧ kept = [] := by
    obtain ⟨hf, hk⟩ := List.append_inj' (show ["sub.d".toList] ++ [[] ++ ".tea".toList] = _ from
      hsplit) rfl
    exact ⟨hf.symm, (List.append_cancel_right (List.singleton_inj.1 hk)).symm⟩
  exact ⟨hmirror, hdistinct _ _ hnames hother (by decide)⟩

end Compile

end Inlay
