import Inlay.Proofs.Clean.Removing
import Inlay.Proofs.Compile.InPlace
import Mathlib

/-!
# Restoring a compiled folder

Cleaning goes the other way round than compiling: from the files with the target extension to their
sources, on the whole path. The files that it selects in a folder that was compiled in place are
those that were made (`exists_selectGenerated`), and taking them away one by one leaves the folder
as it was.
-/

namespace Inlay

variable [Host]

namespace Clean

open Inlay.Action

variable {source target : Text}

/-! ### Taking files away -/

/-- The outcome of a source that loses the file beside it. -/
def deletedOutcome (root : Path) (source target : Text) (x : Stem) : Outcome :=
  .deleted (Path.descend root (x.way source)) (Path.descend root (x.way target))

/-- What is taken from a folder compiled in place is what was made there. -/
theorem generated_of_cleared {v w u : Volume} {place : Place} {xs : List Stem}
    (h : v.Generated w place target xs) {ways : List (List Text)}
    (hways : ∀ way, way ∈ ways ↔ ∃ x ∈ xs, way = x.way target)
    (hu : w.Cleared u (ways.map (place ++ ·))) : v.Generated u place target [] := by
  have hkept : ∀ p, u.get? p = v.get? p := by
    intro p
    rw [hu.get?]
    split
    · next hm =>
      obtain ⟨way, hway, rfl⟩ := List.mem_map.1 hm
      obtain ⟨x, hx, rfl⟩ := (hways way).1 hway
      exact (h.new x hx).symm
    · next hm =>
      refine h.kept p fun x hx hp => hm ?_
      rw [hp]
      exact List.mem_map_of_mem ((hways _).2 ⟨x, hx, rfl⟩)
  exact ⟨hu.tree, ⟨hu.current.trans h.extends'.current,
    by rw [hu.tree.unbounded, ← h.tree.unbounded, h.extends'.limits],
    fun p entry hp => by rw [hkept, hp]⟩, by simp, by simp, fun p _ => hkept p⟩

theorem exists_runOn_cleanPath {v : Volume} (hv : v.Tree) {root : Path} {place : Place}
    (hi : v.Leads root place) (hsne : source ≠ []) (hss : '/' ∉ source) (htne : target ≠ [])
    (hvf : v.get? place = some .folder) (hst : '/' ∉ target)
    (hso : ¬ source <:+ target) (hto : ¬ target <:+ source) {profile : Profile}
    (hprofile : profile.Checked) (hs : profile.sourceExtension = some source)
    (ht : profile.targetExtension = some target) {request : Request} (hin : request.input = root)
    (hdry : request.dryRun = false) {xs : List Stem}
    (hxs : ∀ x, x ∈ xs ↔ ∃ c, v.get? (place ++ x.way source) = some (.file c)) {s : Workspace}
    (hfaults : s.faults = []) (h : v.Generated s.volume place target xs) :
    ∃ (r : Result) (t : Workspace) (ys : List Stem),
      (cleanPath request profile).runOn s = (.ok r, t) ∧ ys.Nodup ∧
      (∀ x, x ∈ ys ↔ x ∈ xs) ∧ r.outcomes = ys.map (deletedOutcome root source target) ∧
      v.Generated t.volume place target [] := by
  subst hin
  have hfolder := h.extends'.get? _ _ hvf
  obtain ⟨r, t, ways, hrun, hnodup, hways, hout, hcleared⟩ := exists_runOn_cleanPath_tree h.tree
    hfaults request (h.extends'.leads hv h.tree hi) hfolder hprofile hs ht hdry
  have hmem : ∀ way, way ∈ ways ↔ ∃ x ∈ xs, way = x.way target := by
    intro way
    rw [hways, selected_iff hsne hss htne request.input h.tree hfolder hst]
    constructor
    · rintro ⟨x, rfl, hfile, horigin⟩
      exact ⟨x, (h.pair_iff hso hto hxs x).1 ⟨hfile, horigin⟩, rfl⟩
    · rintro ⟨x, hx, rfl⟩
      obtain ⟨hfile, horigin⟩ := (h.pair_iff hso hto hxs x).2 hx
      exact ⟨x, rfl, hfile, horigin⟩
  obtain ⟨ys, rfl, hys⟩ := Walk.exists_map_of_forall fun way hw => (hmem way).1 hw
  refine ⟨r, t, ys, hrun, hnodup.of_map _, ?_, ?_, generated_of_cleared h hmem hcleared⟩
  · intro x
    refine ⟨hys x, fun hx => ?_⟩
    obtain ⟨y, hy, heq⟩ := List.mem_map.1 ((hmem _).2 ⟨x, hx, rfl⟩)
    rwa [← Stem.way_injective target heq]
  · rw [hout, List.map_map, List.map_map]
    refine List.map_congr_left fun x hx => ?_
    obtain ⟨bytes, hfile⟩ := h.present x (hys x hx)
    have hname := h.tree.isName_below hfile (x.kept ++ target) (by simp [Stem.way])
    simp only [Function.comp_apply, removedOutcome, deletedOutcome,
      sourceOf_descend hsne hss htne request.input hname.isPiece]

/-! ### There and back -/

/-- A folder compiled in place and cleaned: exactly the files that were made are taken away, and the
folder is what it was. -/
theorem restored_folder {mode : CheckMode} {given : Value} {table : Table}
    {findings : List Finding} (hcheck : checkSettings mode given = .ok (table, findings))
    {source target : Text} (hs : (Profile.ofTable table).sourceExtension = some source)
    (ht : (Profile.ofTable table).targetExtension = some target) (hss : '/' ∉ source)
    (hst : '/' ∉ target ∧ '\\' ∉ target) (hso : ¬ source <:+ target) (hto : ¬ target <:+ source)
    {compiler : Compiler} {choice : Option Compiler} {s : Workspace}
    (hchoice : Compile.Uses (Profile.ofTable table) s choice compiler) {request request' : Request}
    (hout : request.output = none) (hdry : request'.dryRun = false)
    (hplain : '\\' ∉ request.input) (hfaults : s.faults = []) {place : Place}
    (hi : s.volume.Leads request.input place) (hi' : s.volume.Leads request'.input place)
    (hv : s.volume.Ungenerated place source target)
    (hall : ∀ x content, s.volume.get? (place ++ x.way source) = some (.file content) →
      Compile.CompilesAlone compiler (Profile.ofTable table) s request.input source target x) :
    ∃ (r r' : Result) (t u : Workspace) (xs : List Stem),
      (Compile.compilePath request (Profile.ofTable table) choice).runOn s = (.ok r, t) ∧
      (cleanPath request' (Profile.ofTable table)).runOn t = (.ok r', u) ∧ xs.Nodup ∧
      (∀ x, x ∈ xs ↔ ∃ content, s.volume.get? (place ++ x.way source) = some (.file content)) ∧
      r.outcomes.Perm (xs.map (Compile.besideOutcome request.input source target)) ∧
      (∀ p, t.volume.get? p ≠ s.volume.get? p ↔ ∃ x ∈ xs, p = place ++ x.way target) ∧
      r'.outcomes.Perm (xs.map (deletedOutcome request'.input source target)) ∧
      ∀ p, u.volume.get? p = s.volume.get? p := by
  have hprofile := checked_of_checkSettings hcheck
  obtain ⟨hsne, htne⟩ := hprofile.extensions_ne_nil hs ht
  obtain ⟨r, t, xs, hcompile, htf, hnodup, hxs, hr, hgenerated⟩ :=
    Compile.exists_runOn_compilePath_beside hv hfaults hi (Path.isRoot_of_plain hi.1 hplain)
      hprofile hs ht hss hst hchoice hout hall
  obtain ⟨r', u, ys, hclean, hys, hmem, hr', hrestored⟩ := exists_runOn_cleanPath hv.tree hi' hsne
    hss htne hv.folder hst.1 hso hto hprofile hs ht rfl hdry hxs htf hgenerated
  refine ⟨r, r', t, u, xs, hcompile, hclean, hnodup, hxs, ?_, hgenerated.get?_ne_iff, ?_,
    fun p => hrestored.kept p (by simp)⟩
  · rw [hr]
    exact List.mergeSort_perm _ _
  · rw [hr']
    exact ((List.perm_ext_iff_of_nodup hys hnodup).2 hmem).map _

end Clean

end Inlay

namespace Inlay.Clean

open Inlay.Standard

/-- A source, and a file with the target extension that has none. -/
def handWritten : Workspace :=
  .holding [(["r".toList], .folder), (["r".toList, "a.tea".toList], .file (Utf8.encode "x".toList)),
    (["r".toList, "b.php".toList], .file (Utf8.encode "y".toList))]

theorem restored_folder_of_handWritten :
    ∃ (r r' : Result) (t u : Workspace),
      (Compile.compilePath ⟨"compile", "r".toList, none, false⟩ (Profile.ofTable Setting.defaults)
        (some .passthrough)).runOn handWritten = (.ok r, t) ∧
      (cleanPath ⟨"clean", "./r/".toList, none, false⟩ (Profile.ofTable Setting.defaults)).runOn t =
        (.ok r', u) ∧
      t.volume.get? ["r".toList, "a.php".toList] ≠ none ∧
      u.volume.get? ["r".toList, "a.php".toList] = none ∧
      u.volume.get? ["r".toList, "b.php".toList] = some (.file (Utf8.encode "y".toList)) := by
  have hcheck : checkSettings .lenient (.table []) = .ok (Setting.defaults, []) := rfl
  have hchoice : Compile.Uses (Profile.ofTable Setting.defaults) handWritten (some .passthrough)
      .passthrough := rfl
  have hout : Request.output ⟨"compile", "r".toList, none, false⟩ = none := rfl
  have hdry : Request.dryRun ⟨"clean", "./r/".toList, none, false⟩ = false := rfl
  have hi : handWritten.volume.Leads "r".toList ["r".toList] := ⟨by decide, by cbv⟩
  have hi' : handWritten.volume.Leads "./r/".toList ["r".toList] := ⟨by decide, by cbv⟩
  have hfiles : ∀ way content,
      handWritten.volume.get? (["r".toList] ++ way) = some (.file content) →
        way = ["a.tea".toList] ∨ way = ["b.php".toList] := by
    intro way content h
    have hentry := Volume.mem_entries_of_get? (by simp) h
    simp only [handWritten, Workspace.holding, List.cons_append, List.nil_append, List.mem_cons,
      Prod.mk.injEq, List.cons.injEq, true_and, reduceCtorEq, and_false, false_or,
      List.not_mem_nil, or_false] at hentry
    exact hentry.imp And.left And.left
  have hv : handWritten.volume.Ungenerated ["r".toList] ".tea".toList ".php".toList := by
    refine ⟨by decide, rfl, fun way entry => Volume.forall_names_of_entries (by decide), ?_⟩
    intro x content h content' h'
    rcases hfiles _ _ h with hx | hx
    · exact Stem.way_ne_way (by decide) (by decide) ⟨[], "a".toList⟩ x hx.symm
    · obtain rfl : x = ⟨[], "b".toList⟩ := Stem.way_injective ".php".toList hx
      have hb := hfiles _ _ h'
      revert hb
      decide
  have hall : ∀ x content, handWritten.volume.get? (["r".toList] ++ x.way ".tea".toList) =
      some (.file content) → Compile.CompilesAlone .passthrough (Profile.ofTable Setting.defaults)
        handWritten "r".toList ".tea".toList ".php".toList x := fun x content h => by
    rcases hfiles _ _ h with hx | hx
    · obtain rfl : x = ⟨[], "a".toList⟩ := Stem.way_injective ".tea".toList hx
      exact ⟨_, Prod.ext (show _ = Except.ok () by cbv) rfl⟩
    · exact absurd hx (Stem.way_ne_way (by decide) (by decide) x ⟨[], "b".toList⟩)
  obtain ⟨r, r', t, u, xs, hcompile, hclean, _, hxs, _, hmade, _, hsame⟩ := restored_folder hcheck
    rfl rfl (by decide) (by decide) (by decide) (by decide) hchoice hout hdry (by decide) rfl hi hi'
    hv hall
  refine ⟨r, r', t, u, hcompile, hclean, ?_, hsame _, hsame _⟩
  have ha := (hmade _).2 ⟨⟨[], "a".toList⟩, (hxs _).2 ⟨_, rfl⟩, rfl⟩
  exact ha

end Inlay.Clean
