import VirtualShell.Proofs.Path.Parts

/-!
# Paths within paths

Whether a path lies within another one is decided on their texts, and a path is hung below another place by cutting
off the text of its ancestor. `isWithin_exact` says of both what they do to the parts.
-/
namespace VirtualShell.Path
set_option autoImplicit false

def behind (ancestor path : String) : String := String.ofList (path.toList.drop ancestor.length)

variable {path ancestor other : String} {rest : List String}

theorem split_ne_nil (h : isCanonical path = true) (hRoot : path ≠ "/") : split path ≠ [] := by
  obtain ⟨ps, hps, rfl⟩ := isCanonical_iff.mp h
  rw [split_ofParts hps]
  exact mt (ofParts_eq_root hps).mpr hRoot

/-- A path within an ancestor other than the root can be cut behind its text, and the rest be hung below any other
path than the root. -/
theorem append_behind (hPath : isCanonical path = true) (hAncestor : isCanonical ancestor = true)
    (hRoot : ancestor ≠ "/") (hOther : isCanonical other = true) (hOtherRoot : other ≠ "/")
    (hSplit : split path = split ancestor ++ rest) :
    isCanonical (other ++ behind ancestor path) = true ∧
      split (other ++ behind ancestor path) = split other ++ rest := by
  have hAncestorParts := split_ne_nil hAncestor hRoot
  have hOtherParts := split_ne_nil hOther hOtherRoot
  obtain ⟨ps, hps, rfl⟩ := isCanonical_iff.mp hPath
  obtain ⟨qs, hqs, rfl⟩ := isCanonical_iff.mp hAncestor
  obtain ⟨os, hos, rfl⟩ := isCanonical_iff.mp hOther
  rw [split_ofParts hqs] at hAncestorParts hSplit
  rw [split_ofParts hos] at hOtherParts ⊢
  rw [split_ofParts hps] at hSplit
  subst hSplit
  have hParts : AreParts (os ++ rest) := hos.append hps.right
  rw [behind, ofParts_append_drop hOtherParts hAncestorParts]
  exact ⟨isCanonical_ofParts hParts, split_ofParts hParts⟩

theorem eq_of_split_eq (hPath : isCanonical path = true) (hOther : isCanonical other = true)
    (h : split path = split other) : path = other := by
  obtain ⟨ps, hps, rfl⟩ := isCanonical_iff.mp hPath
  obtain ⟨qs, hqs, rfl⟩ := isCanonical_iff.mp hOther
  rw [split_ofParts hps, split_ofParts hqs] at h
  rw [h]

/-- One path lies within another if and only if its parts begin with those of the other. It is then the text of the
other and what stands behind it, which has the other parts wherever it is hung. What lies at or below a sibling does
not lie within the other, however their names begin. -/
theorem isWithin_exact (hPath : isCanonical path = true) (hAncestor : isCanonical ancestor = true) :
    (isWithin path ancestor = true ↔ split ancestor <+: split path) ∧
    (ancestor ≠ "/" → isWithin path ancestor = true → path = ancestor ++ behind ancestor path ∧
      ∃ rest, split path = split ancestor ++ rest ∧ ∀ other, isCanonical other = true → other ≠ "/" →
        isCanonical (other ++ behind ancestor path) = true ∧
          split (other ++ behind ancestor path) = split other ++ rest) ∧
    (ancestor ≠ "/" → ∀ name rest, split path = split (parentOf ancestor) ++ name :: rest →
      name ≠ baseName ancestor → isWithin path ancestor = false) := by
  have hIff := isWithin_iff_split hPath hAncestor
  refine ⟨hIff, ?_, ?_⟩
  · intro hRoot hWithin
    obtain ⟨rest, hRest⟩ := hIff.mp hWithin
    have hHung {other : String} (hOther : isCanonical other = true) (hOtherRoot : other ≠ "/") :=
      append_behind hPath hAncestor hRoot hOther hOtherRoot hRest.symm
    obtain ⟨hCanonical, hParts⟩ := hHung hAncestor hRoot
    exact ⟨eq_of_split_eq hPath hCanonical (hRest.symm.trans hParts.symm), rest, hRest.symm, fun _ => hHung⟩
  · intro hRoot name rest hSplit hName
    -- the parts go apart at the last one of the ancestor
    rw [Bool.eq_false_iff, ne_eq, hIff, hSplit, split_eq_concat (split_ne_nil hAncestor hRoot),
      List.prefix_append_right_inj, List.cons_prefix_cons]
    exact fun hPrefix => hName hPrefix.1.symm

/-- What is in one directory is moved to another; a directory whose name only begins in the same way stays. -/
theorem isWithin_beside_projects :
    let path := "/home/user/projets/src"
    let ancestor := "/home/user/projets"
    isCanonical path = true ∧ isCanonical ancestor = true ∧ isWithin path ancestor = true ∧
      path = ancestor ++ behind ancestor path ∧ split ("/tmp/old" ++ behind ancestor path) = ["tmp", "old", "src"] ∧
      isCanonical "/home/user/projets2/src" = true ∧ isWithin "/home/user/projets2/src" ancestor = false := by
  intro path ancestor
  have hPath : isCanonical path = true := by decide
  have hAncestor : isCanonical ancestor = true := by decide
  have hSibling : isCanonical "/home/user/projets2/src" = true := by decide
  obtain ⟨hIff, hBehind, -⟩ := isWithin_exact hPath hAncestor
  have hWithin : isWithin path ancestor = true := hIff.mpr (by decide)
  obtain ⟨hText, rest, hRest, hHung⟩ := hBehind (by decide) hWithin
  have hParts : split path = split ancestor ++ ["src"] := by decide
  obtain rfl : rest = ["src"] := List.append_cancel_left (hRest.symm.trans hParts)
  refine ⟨hPath, hAncestor, hWithin, hText, (hHung "/tmp/old" (by decide) (by decide)).2, hSibling, ?_⟩
  exact (isWithin_exact hSibling hAncestor).2.2 (by decide) "projets2" ["src"] (by decide) (by decide)

end VirtualShell.Path
