import VirtualShell.Line.Options

/-!
# Bundled options

Words are read one after another, and a letter that takes a value may wait for the next word. `answer_run` says that
the reading of options is such a run, `readOptions_unbundled` that the letters of a bundle are read like letters in
words of their own.
-/
namespace VirtualShell.Line
set_option autoImplicit false

def bundle (letters : List Char) : String := String.ofList ('-' :: letters)

def apart (letters : List Char) : List String := letters.map fun c => bundle [c]

/-- What was gathered from some words, and the letter that is to take its value from the next one. -/
structure Gathered where
  options : Flags
  operands : List String
  awaiting : Option Char

namespace Gathered

def next (valued : List Char) (g : Gathered) (word : String) : Gathered :=
  match g.awaiting, word.toList with
  | some letter, _ => ⟨g.options.put (String.singleton letter) (.value word), g.operands, none⟩
  | none, '-' :: c :: cs =>
    let (options, awaiting) := readBundle valued g.options (c :: cs)
    ⟨options, g.operands, awaiting⟩
  | none, _ => ⟨g.options, g.operands ++ [word], none⟩

def run (valued : List Char) (g : Gathered) (words : List String) : Gathered := words.foldl (next valued) g

def answer (g : Gathered) : Except Char (Flags × List String) :=
  match g.awaiting with
  | some letter => .error letter
  | none => .ok (g.options, g.operands)

variable {valued : List Char} {letter : Char} {options : Flags} {operands : List String} {word : String} {g : Gathered}

theorem run_cons (g : Gathered) (word : String) (words : List String) :
    run valued g (word :: words) = run valued (next valued g word) words := rfl

theorem run_append (g : Gathered) (before after : List String) :
    run valued g (before ++ after) = run valued (run valued g before) after := List.foldl_append

theorem next_awaiting : next valued ⟨options, operands, some letter⟩ word =
    ⟨options.put (String.singleton letter) (.value word), operands, none⟩ := rfl

theorem next_option {c : Char} {cs : List Char} (hWord : word.toList = '-' :: c :: cs) :
    next valued ⟨options, operands, none⟩ word =
      ⟨(readBundle valued options (c :: cs)).1, operands, (readBundle valued options (c :: cs)).2⟩ := by
  simp only [next, hWord]

theorem next_operand (hWord : ∀ c cs, word.toList ≠ '-' :: c :: cs) :
    next valued ⟨options, operands, none⟩ word = ⟨options, operands ++ [word], none⟩ := by
  unfold next
  split
  · rename_i hNone
    cases hNone
  · rename_i hChars
    exact absurd hChars (hWord _ _)
  · rfl

theorem next_subset (g : Gathered) (word : String) : ∀ w ∈ (next valued g word).operands, w ∈ g.operands ∨ w = word := by
  intro w hw
  unfold next at hw
  split at hw
  · exact .inl hw
  · exact .inl hw
  · exact (List.mem_append.mp hw).imp_right List.mem_singleton.mp

theorem run_subset (g : Gathered) (words : List String) :
    ∀ w ∈ (run valued g words).operands, w ∈ g.operands ∨ w ∈ words := by
  induction words generalizing g with
  | nil => exact fun w hw => .inl hw
  | cons word words ih =>
    intro w hw
    rcases ih (next valued g word) w hw with hNext | hLater
    · rcases next_subset g word w hNext with hOld | rfl
      · exact .inl hOld
      · exact .inr List.mem_cons_self
    · exact .inr (List.mem_cons_of_mem word hLater)

theorem answer_eq_ok_iff : g.answer = .ok (options, operands) ↔ g = ⟨options, operands, none⟩ := by
  obtain ⟨_, _, awaiting⟩ := g
  cases awaiting <;> simp [answer]

theorem answer_eq_error_iff : g.answer = .error letter ↔ g.awaiting = some letter := by
  obtain ⟨_, _, awaiting⟩ := g
  cases awaiting <;> simp [answer]

theorem answer_run (options : Flags) (operands words : List String) :
    (run valued ⟨options, operands, none⟩ words).answer = readOptionsFrom valued options operands words := by
  fun_induction readOptionsFrom valued options operands words with
  | case1 options operands => rfl
  | case2 options operands word c cs hWord found hBundle =>
    rw [run_cons, next_option hWord, hBundle]
    rfl
  | case3 options operands word c cs hWord found letter hBundle =>
    rw [run_cons, next_option hWord, hBundle]
    rfl
  | case4 options operands word hWord =>
    rw [run_cons, next_operand hWord]
    rfl
  | case5 options operands word following rest c cs hWord found hBundle ih =>
    rw [run_cons, next_option hWord, hBundle, ih]
  | case6 options operands word following rest c cs hWord found letter hBundle ih =>
    -- two words at once here, one after the other in a run
    rw [run_cons, next_option hWord, hBundle, run_cons, next_awaiting, ih]
  | case7 options operands word following rest hWord ih =>
    rw [run_cons, next_operand hWord, ih]

end Gathered

variable {valued letters : List Char} {letter : Char} {options : Flags} {operands before rest : List String}

theorem readOptions_eq (words : List String) :
    readOptions valued words = (Gathered.run valued ⟨[], [], none⟩ words).answer :=
  (Gathered.answer_run [] [] words).symm

theorem readOptions_subset {words : List String} (h : readOptions valued words = .ok (options, operands)) :
    ∀ w ∈ operands, w ∈ words := by
  rw [readOptions_eq, Gathered.answer_eq_ok_iff] at h
  intro w hw
  have hRun : w ∈ (Gathered.run valued ⟨[], [], none⟩ words).operands := by rwa [h]
  exact (Gathered.run_subset _ words w hRun).resolve_left List.not_mem_nil

theorem readOptions_append (hBefore : readOptions valued before = .ok (options, operands)) (after : List String) :
    readOptions valued (before ++ after) = readOptionsFrom valued options operands after := by
  rw [readOptions_eq, Gathered.answer_eq_ok_iff] at hBefore
  rw [readOptions_eq, Gathered.run_append, hBefore, Gathered.answer_run]

/-- A word is the value of the letter that awaits it, however it looks. -/
theorem readOptions_awaiting (hBefore : readOptions valued before = .error letter) :
    ∃ (options : Flags) (operands : List String), ∀ word rest, readOptions valued (before ++ word :: rest) =
      readOptionsFrom valued (options.put (String.singleton letter) (.value word)) operands rest := by
  rw [readOptions_eq, Gathered.answer_eq_error_iff] at hBefore
  generalize hRun : Gathered.run valued ⟨[], [], none⟩ before = g at hBefore
  obtain ⟨options, operands, _⟩ := g
  cases hBefore
  refine ⟨options, operands, fun word rest => ?_⟩
  rw [readOptions_eq, Gathered.run_append, hRun, Gathered.run_cons, Gathered.next_awaiting, Gathered.answer_run]

example : readOptions ['G'] ["-G", "-aG", "eve"] = .ok ([("G", .value "-aG")], ["eve"]) := by cbv

theorem readBundle_append (hPlain : ∀ c ∈ letters, c ∉ valued) (options : Flags) (cs : List Char) :
    readBundle valued options (letters ++ cs) = readBundle valued (putLetters options letters) cs := by
  induction letters generalizing options with
  | nil => rfl
  | cons c letters ih =>
    obtain ⟨hc, hLetters⟩ := List.forall_mem_cons.mp hPlain
    simp [readBundle, putLetters, hc, ih hLetters]

theorem readBundle_valued (hValued : letter ∈ valued) (options : Flags) (cs : List Char) :
    readBundle valued options (letter :: cs) =
      if cs.isEmpty then (options, some letter)
      else (options.put (String.singleton letter) (.value (String.ofList cs)), none) := by
  simp [readBundle, hValued]

theorem readOptionsFrom_cons_bundle {cs : List Char} (hNe : cs ≠ []) :
    readOptionsFrom valued options operands (bundle cs :: rest) =
      (Gathered.run valued ⟨(readBundle valued options cs).1, operands, (readBundle valued options cs).2⟩
        rest).answer := by
  obtain ⟨c, cs, rfl⟩ := List.exists_cons_of_ne_nil hNe
  have hWord : (bundle (c :: cs)).toList = '-' :: c :: cs := String.toList_ofList
  rw [← Gathered.answer_run, Gathered.run_cons, Gathered.next_option hWord]

/-- Letters that take no value are set, and what follows them in their bundle is read as a bundle of its own. -/
theorem readOptionsFrom_bundle (hPlain : ∀ c ∈ letters, c ∉ valued) (letter : Char) (cs : List Char) :
    readOptionsFrom valued options operands (bundle (letters ++ letter :: cs) :: rest) =
      readOptionsFrom valued (putLetters options letters) operands (bundle (letter :: cs) :: rest) := by
  rw [readOptionsFrom_cons_bundle (List.append_ne_nil_of_right_ne_nil _ (List.cons_ne_nil letter cs)),
    readOptionsFrom_cons_bundle (List.cons_ne_nil letter cs), readBundle_append hPlain]

theorem readOptionsFrom_apart (hPlain : ∀ c ∈ letters, c ∉ valued) (options : Flags) :
    readOptionsFrom valued options operands (apart letters ++ rest) =
      readOptionsFrom valued (putLetters options letters) operands rest := by
  induction letters generalizing options with
  | nil => rfl
  | cons c letters ih =>
    obtain ⟨hc, hLetters⟩ := List.forall_mem_cons.mp hPlain
    have hPut : readBundle valued options [c] = (options.put (String.singleton c) .set, none) := by
      simp [readBundle, hc]
    calc readOptionsFrom valued options operands (bundle [c] :: (apart letters ++ rest))
        = readOptionsFrom valued (options.put (String.singleton c) .set) operands (apart letters ++ rest) := by
          rw [readOptionsFrom_cons_bundle (List.cons_ne_nil c []), hPut, Gathered.answer_run]
      _ = readOptionsFrom valued (putLetters options (c :: letters)) operands rest := ih hLetters _

theorem readOptionsFrom_value (hValued : letter ∈ valued) (value : String) :
    readOptionsFrom valued options operands (bundle [letter] :: value :: rest) =
      readOptionsFrom valued (options.put (String.singleton letter) (.value value)) operands rest := by
  rw [readOptionsFrom_cons_bundle (List.cons_ne_nil letter []), readBundle_valued hValued, if_pos List.isEmpty_nil,
    Gathered.run_cons, Gathered.next_awaiting, Gathered.answer_run]

theorem readOptionsFrom_attached {value : String} (hValued : letter ∈ valued) (hValue : value ≠ "") :
    readOptionsFrom valued options operands (bundle (letter :: value.toList) :: rest) =
      readOptionsFrom valued (options.put (String.singleton letter) (.value value)) operands rest := by
  have hChars : ¬value.toList.isEmpty = true := by simpa using hValue
  rw [readOptionsFrom_cons_bundle (List.cons_ne_nil letter _), readBundle_valued hValued, if_neg hChars,
    String.ofList_toList, Gathered.answer_run]

theorem readOptionsFrom_lacking (hValued : letter ∈ valued) :
    readOptionsFrom valued options operands [bundle [letter]] = .error letter := by
  rw [readOptionsFrom_cons_bundle (List.cons_ne_nil letter []), readBundle_valued hValued]
  rfl

/-- Letters and a value may share a bundle or stand in words of their own. Where no letter awaits its value, a bundle
whose last letter takes one, from the next word or from the rest of the bundle, is read like its letters and the value
one by one: each letter is set and the last one has the value, or is the one that lacks it. Where a letter awaits its
value, the next word is that value and no bundle, however it looks. -/
theorem readOptions_unbundled (hPlain : ∀ c ∈ letters, c ∉ valued) (hValued : letter ∈ valued) (before : List String) :
    (∀ options operands, readOptions valued before = .ok (options, operands) →
      (∀ rest, readOptions valued (before ++ bundle (letters ++ [letter]) :: rest) =
        readOptions valued (before ++ apart letters ++ bundle [letter] :: rest)) ∧
      (∀ value rest, value ≠ "" →
        readOptions valued (before ++ bundle (letters ++ letter :: value.toList) :: rest) =
          readOptions valued (before ++ apart letters ++ bundle [letter] :: value :: rest)) ∧
      (∀ value rest, readOptions valued (before ++ apart letters ++ bundle [letter] :: value :: rest) =
        readOptionsFrom valued ((putLetters options letters).put (String.singleton letter) (.value value)) operands
          rest) ∧
      readOptions valued (before ++ apart letters ++ [bundle [letter]]) = .error letter) ∧
    ∀ awaiting, readOptions valued before = .error awaiting →
      ∃ (options : Flags) (operands : List String), ∀ word rest, readOptions valued (before ++ word :: rest) =
        readOptionsFrom valued (options.put (String.singleton awaiting) (.value word)) operands rest := by
  refine ⟨?_, fun awaiting => readOptions_awaiting⟩
  intro options operands hBefore
  have hApart (rest : List String) : readOptions valued (before ++ apart letters ++ bundle [letter] :: rest) =
      readOptionsFrom valued (putLetters options letters) operands (bundle [letter] :: rest) := by
    rw [List.append_assoc, readOptions_append hBefore, readOptionsFrom_apart hPlain]
  refine ⟨?_, ?_, ?_, ?_⟩
  · intro rest
    rw [hApart, readOptions_append hBefore, readOptionsFrom_bundle hPlain]
  · intro value rest hValue
    rw [hApart, readOptions_append hBefore, readOptionsFrom_bundle hPlain, readOptionsFrom_attached hValued hValue,
      readOptionsFrom_value hValued]
  · intro value rest
    rw [hApart, readOptionsFrom_value hValued]
  · rw [hApart, readOptionsFrom_lacking hValued]

/-- Groups that look like options are groups all the same, in front of a bundle and behind it. -/
theorem readOptions_beside_groups :
    let before := ["-G", "-aG", "bob"]
    (∀ c ∈ ['a', 'l'], c ∉ ['G']) ∧ 'G' ∈ ['G'] ∧
    readOptions ['G'] before = .ok ([("G", .value "-aG")], ["bob"]) ∧
    readOptions ['G'] (before ++ ["-alG", "-lG", "eve"]) =
      .ok ([("G", .value "-lG"), ("a", .set), ("l", .set)], ["bob", "eve"]) ∧
    readOptions ['G'] (before ++ ["-alG-lG", "eve"]) =
      readOptions ['G'] (before ++ ["-a", "-l", "-G", "-lG", "eve"]) ∧
    readOptions ['G'] (before ++ ["-alG"]) = .error 'G' ∧
    readOptions ['G'] ["-G"] = .error 'G' ∧
    ∃ (options : Flags) (operands : List String), readOptions ['G'] ["-G", "-alG", "eve"] =
      readOptionsFrom ['G'] (options.put "G" (.value "-alG")) operands ["eve"] := by
  intro before
  have hPlain : ∀ c ∈ ['a', 'l'], c ∉ ['G'] := by simp
  have hValued : 'G' ∈ ['G'] := List.mem_singleton_self 'G'
  have hBefore : readOptions ['G'] before = .ok ([("G", .value "-aG")], ["bob"]) := by cbv
  have hAwaiting : readOptions ['G'] ["-G"] = .error 'G' := by cbv
  obtain ⟨hNext, hAttached, hRead, hLacking⟩ := (readOptions_unbundled hPlain hValued before).1 _ _ hBefore
  obtain ⟨options, operands, hValue⟩ := (readOptions_unbundled hPlain hValued ["-G"]).2 'G' hAwaiting
  refine ⟨hPlain, hValued, hBefore, ?_, hAttached "-lG" ["eve"] (by decide), (hNext []).trans hLacking, hAwaiting,
    options, operands, hValue "-alG" ["eve"]⟩
  exact (hNext ["-lG", "eve"]).trans (hRead "-lG" ["eve"])

end VirtualShell.Line
