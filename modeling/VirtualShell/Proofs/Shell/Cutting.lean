import VirtualShell.Proofs.Shell.Marked
import VirtualShell.Proofs.Shell.Names
import VirtualShell.Proofs.Shell.Redirection

/-!
# Markup that is cut

An output that is too long is cut behind the last whole line within the limit. That leaves all tags whole. It
leaves all spans closed, unless a newline that was typed in a path, or that ends the name of an account, got
into one of them.
-/
namespace VirtualShell
set_option autoImplicit false

open Session

theorem dropWhile_newline (cs : List Char) :
    cs.dropWhile (· == '\n') = cs ∨ ∃ front, cs = front ++ '\n' :: cs.dropWhile (· == '\n') := by
  induction cs with
  | nil => exact .inl rfl
  | cons c cs ih =>
    by_cases hNewline : c = '\n'
    · subst hNewline
      rw [List.dropWhile_cons_of_pos (by simp)]
      refine .inr ?_
      rcases ih with hSame | ⟨front, hFront⟩
      · exact ⟨[], by rw [hSame, List.nil_append]⟩
      · exact ⟨'\n' :: front, congrArg ('\n' :: ·) hFront⟩
    · exact .inl (List.dropWhile_cons_of_neg (by simpa using hNewline))

/-- What remains when the characters up to a run of newlines are taken off, and the run as well. -/
theorem dropWhile_line (cs : List Char) :
    (cs.dropWhile (· != '\n')).dropWhile (· == '\n') = [] ∨
      ∃ front, cs = front ++ '\n' :: (cs.dropWhile (· != '\n')).dropWhile (· == '\n') := by
  induction cs with
  | nil => exact .inl rfl
  | cons c cs ih =>
    by_cases hNewline : c = '\n'
    · subst hNewline
      rw [List.dropWhile_cons_of_neg (by simp)]
      rcases dropWhile_newline ('\n' :: cs) with hSame | hFront
      · rw [List.dropWhile_cons_of_pos (by simp)] at hSame
        have hLess := (List.dropWhile_sublist (· == '\n') (l := cs)).length_le
        rw [hSame, List.length_cons] at hLess
        exact absurd hLess (Nat.not_succ_le_self _)
      · exact .inr hFront
    · rw [List.dropWhile_cons_of_pos (by simpa using hNewline)]
      refine ih.imp_right ?_
      rintro ⟨front, hFront⟩
      exact ⟨c :: front, congrArg (c :: ·) hFront⟩

/-- The whole lines of a text end where a newline stands, if there are any. -/
theorem wholeLines_eq_nil_or (cs : List Char) : wholeLines cs = [] ∨ ∃ rest, cs = wholeLines cs ++ '\n' :: rest := by
  rcases dropWhile_line cs.reverse with hNil | ⟨front, hFront⟩
  · refine .inl ?_
    rw [wholeLines, hNil, List.reverse_nil]
  · refine .inr ⟨front.reverse, ?_⟩
    have hText := congrArg List.reverse hFront
    rwa [List.reverse_reverse, List.reverse_append, List.reverse_cons, List.append_assoc, List.singleton_append] at hText

theorem wholeLines_isPrefix (cs : List Char) : wholeLines cs <+: cs := by
  rcases wholeLines_eq_nil_or cs with hNil | ⟨rest, hRest⟩
  · rw [hNil]
    exact List.nil_prefix
  · exact ⟨_, hRest.symm⟩

/-- A prefix of markup, cut behind its last whole line. -/
structure CutOf (full shown : String) : Prop where
  here : shown.toList <+: full.toList
  tags : WholeTags full.toList → WholeTags shown.toList
  spans : Marked (· ≠ '\n') full → Marked (· ≠ '\n') shown

theorem cutOf_wholeLines (full : String) (n : Nat) :
    CutOf full (String.ofList (wholeLines (full.toList.take n))) := by
  have hHere := (wholeLines_isPrefix (full.toList.take n)).trans (List.take_prefix n full.toList)
  rw [← String.toList_ofList (l := wholeLines _)] at hHere
  rcases wholeLines_eq_nil_or (full.toList.take n) with hNil | ⟨rest, hRest⟩
  · refine ⟨hHere, fun _ => ?_, fun _ => ?_⟩
    · rw [hNil]
      intro before after hEq
      cases before <;> cases hEq
    · rw [hNil]
      exact Text.Marked.nil
  · have hFull : full.toList = wholeLines (full.toList.take n) ++ '\n' :: (rest ++ full.toList.drop n) := by
      rw [← List.cons_append, ← List.append_assoc, ← hRest, List.take_append_drop]
    refine ⟨hHere, fun h => ?_, fun h => ?_⟩
    · rw [String.toList_ofList]
      rw [hFull] at h
      exact h.before_newline
    · unfold Marked
      rw [String.toList_ofList]
      exact h.before_newline (fun hNewline => hNewline rfl) hFull

theorem Reply.markup_cap (r : Reply) (limit : Int) : (r.cap limit).markup = r.markup := by
  unfold Reply.cap
  split
  · rfl
  · rfl

theorem Reply.cap_markup {r : Reply} {limit : Int} (hMarkup : r.markup = true) (hLimit : 0 < limit) :
    ((r.output.length : Int) ≤ limit ∧ r.cap limit = r) ∨
      limit < r.output.length ∧ ∃ shown, CutOf r.output shown ∧ (shown.length : Int) ≤ limit ∧
        r.cap limit = { r with output := shown ++ truncationNotice } := by
  have hPositive : ¬limit ≤ 0 := Int.not_le.mpr hLimit
  by_cases hFits : (r.output.length : Int) ≤ limit
  · refine .inl ⟨hFits, ?_⟩
    simp [Reply.cap, hFits]
  · refine .inr ⟨Int.not_le.mp hFits, _, cutOf_wholeLines r.output limit.toNat, ?_, ?_⟩
    · have hKept := (wholeLines_isPrefix (r.output.toList.take limit.toNat)).length_le
      have hTaken := List.length_take_le limit.toNat r.output.toList
      rw [← String.length_toList, String.toList_ofList]
      omega
    · simp [Reply.cap, hFits, hPositive, hMarkup]

namespace Session

variable {p : Char → Prop}

theorem spelled_true (s : Session) : s.Spelled fun _ => True := by
  have hNames : ∀ path n, (path, n) ∈ s.root.walk "/" → Line.Spelled (fun _ => True) n.name.toList :=
    fun _ _ _ _ _ => trivial
  exact ⟨.of_walk hNames, fun _ _ => trivial, fun _ _ => trivial⟩

theorem not_newline_of_hasUnsafe {name : String} (h : Path.hasUnsafe name = false) :
    Line.Spelled (· ≠ '\n') name.toList := by
  rintro _ hc rfl
  have hSafe := hasUnsafe_eq_false_iff.mp h _ hc
  revert hSafe
  decide

theorem Spelt.spelled {marks : List Mark} {s : Session} (h : Spelt (· ≠ '\n') marks s) : s.Spelled (· ≠ '\n') := by
  have hName : ∀ {name : String}, ProperName (· ≠ '\n') name → Line.Spelled (· ≠ '\n') name.toList :=
    fun hProper => not_newline_of_hasUnsafe (hProper.hasUnsafe_eq_false fun hNewline => hNewline rfl)
  have hPath : ∀ {path : String}, Path.isCanonical path = true → (∀ q ∈ Path.split path, ProperName (· ≠ '\n') q) →
      Line.Spelled (· ≠ '\n') path.toList := by
    intro path hCanonical hParts
    obtain ⟨ps, hps, rfl⟩ := Path.isCanonical_iff.mp hCanonical
    rw [Path.split_ofParts hps] at hParts
    exact Path.spelled_ofParts (fun _ hc => hc) fun q hq => hName (hParts q hq)
  have hGrounded := h.housed.grounded
  exact ⟨h.names.mono fun _ => hName, hPath hGrounded.placed.canonical h.cwd, hPath hGrounded.home_canonical h.home⟩

end Session

namespace Shell

variable {sh : Shell} {o : ShellOptions} {markup : Bool}

section

variable {p : Char → Prop} {P : List Mark → Session → Prop} {marks : List Mark}
  (hp : ∀ c, c ≠ '\n' → p c) (hP : InvariantOf p P) (hKnown : ∀ marks s, P marks s → s.Spelled p)

include hp hP hKnown

theorem runChain_marked (piped : Option String) {stages : List Line.Stage} (hStages : ∀ stage ∈ stages, stage.Spelled p)
    (h : P marks sh.session) : (sh.runChain o piped markup stages).1.Marked p := by
  induction stages generalizing sh marks with
  | nil => exact Reply.marked_of_plain rfl
  | cons stage inners ih =>
    obtain ⟨hStage, hInners⟩ := List.forall_mem_cons.mp hStages
    have hAct : ∀ u : Utility, (sh.perform stage.name (u.act ⟨stage, piped, markup⟩)).1.Marked p := by
      intro u
      unfold Shell.perform
      split
      · rename_i hRun
        exact u.act_marked hp (c := ⟨stage, piped, markup⟩) (hKnown marks _ h) hStage.args (congrArg Prod.fst hRun)
      · exact Reply.marked_of_plain rfl
    rw [runChain]
    split
    · exact Reply.marked_of_plain rfl
    · rename_i u _
      split
      · exact Reply.marked_of_plain rfl
      · dsimp only
        split
        · exact hAct u
        · split
          · exact hAct u
          · split
            · exact Reply.marked_of_plain rfl
            · have hInner : (runChain o piped markup inners
                  { sh.count (.elevation false) with session := sh.session.enterElevation.2 }).1.Marked p :=
                ih hInners (hP.enter h)
              unfold Shell.elevate
              dsimp only
              split
              · exact hInner
              · exact Reply.marked_of_plain rfl

theorem runStages_marked (piped : Option String) {stages : List Line.Stage}
    (hStages : ∀ stage ∈ stages, stage.Spelled p) (h : P marks sh.session) :
    (sh.runStages o markup piped stages).1.Marked p := by
  induction stages generalizing sh piped with
  | nil => exact Reply.marked_of_plain rfl
  | cons stage rest ih =>
    obtain ⟨hStage, hRest⟩ := List.forall_mem_cons.mp hStages
    cases rest with
    | nil => exact runChain_marked hp hP hKnown piped hStage.chain h
    | cons next rest =>
      have hFirst : (sh.runStage o piped false stage).1.Marked p := runChain_marked hp hP hKnown piped hStage.chain h
      have hAfter : P marks (sh.runStage o piped false stage).2.session := runChain_keeps hP piped hStage.chain h
      rw [runStages]
      dsimp only
      split
      · exact hFirst
      · exact ih _ hRest hAfter

/-- The stages of a line leave a reply that is well marked, of which the terminal gets what its limit allows. -/
theorem runLine_marked {stages : List Line.Stage} (redirect : Option Line.Redirect)
    (hStages : ∀ stage ∈ stages, stage.Spelled p) (h : P marks sh.session) {r : Reply} {after : Shell}
    (hRun : sh.runLine o markup stages redirect = (.ok r, after)) (hMarkup : r.markup = true) :
    ∃ full : Reply, full.Marked p ∧ r = full.cap o.outputLimit ∧
      sh.runLine { o with outputLimit := 0 } markup stages redirect = (.ok full, after) := by
  have hSame : runStages { o with outputLimit := 0 } (markup && redirect.isNone) none stages sh =
      runStages o (markup && redirect.isNone) none stages sh :=
    runStages_congr (by rfl) _ none stages sh
  have hFull : (runStages o (markup && redirect.isNone) none stages sh).1.Marked p :=
    runStages_marked hp hP hKnown none hStages h
  unfold runLine at hRun ⊢
  rw [hSame]
  generalize runStages o (markup && redirect.isNone) none stages sh = ended at hRun hFull ⊢
  obtain ⟨full, left⟩ := ended
  have hUncapped : full.cap 0 = full := cap_of_unlimited (Int.le_refl 0) full
  cases redirect with
  | none =>
    cases hRun
    exact ⟨full, hFull, rfl, by dsimp only; rw [hUncapped]⟩
  | some target =>
    dsimp only at hRun ⊢
    split at hRun
    · rename_i hFailed
      cases hRun
      exact ⟨full, hFull, rfl, by rw [if_pos hFailed, hUncapped]⟩
    · -- whatever the write says is not markup
      have hPlain := writeOutput_agree left target full.output
      rw [hRun] at hPlain
      cases hPlain with
      | ok hShows =>
        rw [hShows.plain] at hMarkup
        cases hMarkup

theorem run_marked {line : String} (hLine : Line.Spelled p line.toList) (h : P [] sh.session) {r : Reply}
    {after : Shell} (hRun : sh.run o markup line = (.ok r, after)) (hMarkup : r.markup = true) :
    ∃ full : Reply, full.Marked p ∧ r = full.cap o.outputLimit ∧
      sh.run { o with outputLimit := 0 } markup line = (.ok full, after) := by
  have hStages := Line.spelled_parse hLine (hp ' ' (by decide))
  unfold Shell.run at hRun ⊢
  split
  · rename_i hExit
    rw [if_pos hExit] at hRun
    cases hRun
    cases hMarkup
  · rename_i hStays
    rw [if_neg hStays] at hRun
    cases hParse : Line.parse line with
    | empty raw =>
      rw [hParse] at hRun
      cases hRun
      cases hMarkup
    | error fault raw =>
      rw [hParse] at hRun
      cases hRun
      cases hMarkup
    | command stage redirect =>
      rw [hParse] at hRun hStages
      exact runLine_marked hp hP hKnown redirect hStages h hRun hMarkup
    | pipeline stages raw redirect =>
      rw [hParse] at hRun hStages
      exact runLine_marked hp hP hKnown redirect hStages h hRun hMarkup

end

/-- Markup that is too long is cut at the end of a line. No tag is cut, and no span, as long as no line that led
here, this one included, has a newline in it. -/
theorem run_cut (sh : Shell) (o : ShellOptions) (markup : Bool) (line : String) {r : Reply} {after : Shell}
    (hLimit : 0 < o.outputLimit) (hRun : sh.run o markup line = (.ok r, after)) (hMarkup : r.markup = true) :
    ∃ full shown, sh.run { o with outputLimit := 0 } markup line = (.ok { r with output := full }, after) ∧
      shown.toList <+: full.toList ∧ (shown.length : Int) ≤ o.outputLimit ∧
      ((r.output = shown ∧ shown = full) ∨ (o.outputLimit < full.length ∧ r.output = shown ++ truncationNotice)) ∧
      WholeTags shown.toList ∧
      ((shown = full ∨ ReachedBy (· ≠ '\n') sh ∧ '\n' ∉ line.toList) → SpansClosed shown.toList) := by
  have hAny : InvariantOf (fun _ => True) fun _ _ => True :=
    ⟨fun _ _ _ => trivial, fun _ _ => trivial, fun _ => trivial, fun _ => trivial⟩
  obtain ⟨full, hFull, rfl, hUncapped⟩ := run_marked (fun _ _ => trivial) hAny (fun _ s _ => s.spelled_true)
    (fun _ _ => trivial) trivial hRun hMarkup
  have hFullMarkup : full.markup = true := by rwa [Reply.markup_cap] at hMarkup
  have hAll := hFull hFullMarkup
  rcases Reply.cap_markup hFullMarkup hLimit with ⟨hFits, hSame⟩ | ⟨hLong, shown, hCut, hLength, hShown⟩
  · rw [hSame]
    exact ⟨full.output, full.output, hUncapped, List.prefix_rfl, hFits, .inl ⟨rfl, rfl⟩, Text.Marked.wholeTags hAll,
      fun _ => Text.Marked.spansClosed hAll⟩
  · rw [hShown]
    refine ⟨full.output, shown, hUncapped, hCut.here, hLength, .inr ⟨hLong, rfl⟩,
      hCut.tags (Text.Marked.wholeTags hAll), ?_⟩
    rintro (rfl | ⟨hReached, hLine⟩)
    · exact Text.Marked.spansClosed hAll
    · -- the same reply once more, now with all that is known of its spans
      have hSpelled : Line.Spelled (· ≠ '\n') line.toList := fun c hc hNewline => hLine (hNewline ▸ hc)
      obtain ⟨full', hFull', -, hUncapped'⟩ := run_marked (fun _ hc => hc) (invariantOf_spelt (· ≠ '\n'))
        (fun _ _ hSpelt => hSpelt.spelled) hSpelled (hReached.spelt (by decide)) hRun hMarkup
      rw [hUncapped] at hUncapped'
      cases hUncapped'
      exact Text.Marked.spansClosed (hCut.spans (hFull' hFullMarkup))

/-- Of two found lines the second is cut off. -/
theorem search_cut : ∃ s r after, Session.fresh? "user" 0.0 = some s ∧
    let sh : Shell := ⟨s, []⟩
    let o : ShellOptions := ⟨[], 100⟩
    let line := "grep l /etc/hostname /etc/hostname"
    0 < o.outputLimit ∧ sh.run o true line = (.ok r, after) ∧ r.markup = true ∧
    r.output = "<span class=\"grep-path\">/etc/hostname</span>:<span class=\"grep-match\">l</span>inux-game" ++
      truncationNotice ∧
    ∃ full shown, sh.run { o with outputLimit := 0 } true line = (.ok { r with output := full }, after) ∧
      shown.toList <+: full.toList ∧ (shown.length : Int) ≤ o.outputLimit ∧
      ((r.output = shown ∧ shown = full) ∨ (o.outputLimit < full.length ∧ r.output = shown ++ truncationNotice)) ∧
      WholeTags shown.toList ∧
      ((shown = full ∨ ReachedBy (· ≠ '\n') sh ∧ '\n' ∉ line.toList) → SpansClosed shown.toList) := by
  have hRun : (Session.fresh? "user" 0.0).map (fun s =>
      ((Shell.mk s []).run ⟨[], 100⟩ true "grep l /etc/hostname /etc/hostname").1.toOption.map fun r =>
        (r.markup, r.output)) = some (some (true,
      "<span class=\"grep-path\">/etc/hostname</span>:<span class=\"grep-match\">l</span>inux-game" ++
        truncationNotice)) := by
    decide +kernel
  obtain ⟨s, hFresh, hReply⟩ := Option.map_eq_some_iff.mp hRun
  generalize hEnd : (Shell.mk s []).run ⟨[], 100⟩ true "grep l /etc/hostname /etc/hostname" = ended at hReply
  obtain ⟨result, after⟩ := ended
  obtain ⟨r, hOk, hShown⟩ := Option.map_eq_some_iff.mp hReply
  obtain ⟨hMarkup, hOutput⟩ := Prod.mk.inj hShown
  obtain rfl : result = .ok r := Result.toOption_eq_some_iff.mp hOk
  have hLimit : 0 < ShellOptions.outputLimit ⟨[], 100⟩ := by decide
  exact ⟨s, r, after, hFresh, hLimit, hEnd, hMarkup, hOutput, run_cut ⟨s, []⟩ ⟨[], 100⟩ true _ hLimit hEnd hMarkup⟩

/-- A newline in an operand lets the cut fall inside of a span. -/
theorem spans_not_all_closed :
    ¬∀ (sh : Shell) (o : ShellOptions) (line : String) (r : Reply) (after : Shell), Reached sh → 0 < o.outputLimit →
      sh.run o true line = (.ok r, after) → r.markup = true →
        ∀ shown, r.output = shown ++ truncationNotice → SpansClosed shown.toList := by
  intro h
  have hRun : (Session.fresh? "user" 0.0).map (fun s =>
      ((Shell.mk s []).run ⟨[], 40⟩ true "grep -r l '/etc/x\n/../hostname'").1.toOption.map fun r =>
        (r.markup, r.output)) =
      some (some (true, ("<span class=\"grep-path\">" ++ "/etc/x") ++ truncationNotice)) := by
    decide +kernel
  obtain ⟨s, hFresh, hReply⟩ := Option.map_eq_some_iff.mp hRun
  generalize hEnd : (Shell.mk s []).run ⟨[], 40⟩ true "grep -r l '/etc/x\n/../hostname'" = ended at hReply
  obtain ⟨result, after⟩ := ended
  obtain ⟨r, hOk, hShown⟩ := Option.map_eq_some_iff.mp hReply
  obtain ⟨hMarkup, hOutput⟩ := Prod.mk.inj hShown
  obtain rfl : result = .ok r := Result.toOption_eq_some_iff.mp hOk
  have hLimit : 0 < ShellOptions.outputLimit ⟨[], 40⟩ := by decide
  have hClosed := h ⟨s, []⟩ ⟨[], 40⟩ _ r _ (.start [] hFresh) hLimit hEnd hMarkup _ hOutput
  have hTag : IsOpening "<span class=\"grep-path\">".toList := by decide +kernel
  obtain ⟨text, -, hPrefix⟩ := hClosed [] _ "/etc/x".toList hTag (by rw [List.nil_append, String.toList_append])
  have hBracket : '<' ∈ text ++ closingTag := List.mem_append_right text (by decide)
  have hNone : '<' ∉ "/etc/x".toList := by decide
  exact hNone (hPrefix.subset hBracket)

end Shell

end VirtualShell
