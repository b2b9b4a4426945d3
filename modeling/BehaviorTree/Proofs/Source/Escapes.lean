import BehaviorTree.Proofs.Source.ReadArguments

namespace BehaviorTree

namespace Source

open Text

def escapeChar (c : Char) : List Char :=
  if c = '\\' then ['\\', '\\'] else if c = '\n' then ['\\', 'n'] else [c]

def escape (cs : List Char) : List Char := cs.flatMap escapeChar

def inQuotes (text : String) : List Char := '"' :: (escape text.toList ++ ['"'])

/-- How a character is written once the doubled backslashes are taken out. -/
def breakChar (c : Char) : List Char := if c = '\n' then ['\\', 'n'] else [c]

section Pairs

variable {first second new c : Char} {cs : List Char}

theorem replacePairs_pair (first second new : Char) (cs : List Char) :
    replacePairs first second new (first :: second :: cs) = new :: replacePairs first second new cs := by
  rw [replacePairs, if_pos ⟨rfl, rfl⟩]

theorem replacePairs_cons (h : c = first → ∀ d ∈ cs.head?, d ≠ second) :
    replacePairs first second new (c :: cs) = c :: replacePairs first second new cs := by
  cases cs with
  | nil => rfl
  | cons d cs => rw [replacePairs, if_neg fun hpair => h hpair.1 d rfl hpair.2]

theorem replacePairs_cons_of_ne (h : c ≠ first) :
    replacePairs first second new (c :: cs) = c :: replacePairs first second new cs :=
  replacePairs_cons fun heq => absurd heq h

theorem length_replacePairs_le (first second new : Char) (cs : List Char) :
    (replacePairs first second new cs).length ≤ cs.length := by
  fun_induction replacePairs first second new cs with
  | case1 c d cs _ ih => simp only [List.length_cons]; omega
  | case2 c d cs _ ih => simp only [List.length_cons] at ih ⊢; omega
  | case3 => exact le_rfl

theorem replacePairs_eq_self_iff (first second new : Char) (cs : List Char) :
    replacePairs first second new cs = cs ↔ ¬ [first, second] <:+: cs := by
  fun_induction replacePairs first second new cs with
  | case1 c d cs hpair ih =>
    obtain ⟨rfl, rfl⟩ := hpair
    refine iff_of_false (fun heq => ?_) (not_not.mpr ⟨[], cs, rfl⟩)
    have hle := length_replacePairs_le c d new cs
    have hlength := congrArg List.length heq
    simp only [List.length_cons] at hlength
    omega
  | case2 c d cs hpair ih =>
    rw [List.cons.injEq, List.infix_cons_iff, not_or, ih]
    have hfront : ¬ [first, second] <+: c :: d :: cs := by
      rw [List.cons_prefix_cons, List.cons_prefix_cons]
      exact fun h => hpair ⟨h.1.symm, h.2.1.symm⟩
    exact ⟨fun h => ⟨hfront, h.2⟩, fun h => ⟨rfl, h.2⟩⟩
  | case3 cs hshort =>
    refine iff_of_true rfl fun h => ?_
    have hlength := h.length_le
    match cs with
    | [] | [_] => simp at hlength
    | c :: d :: cs => exact hshort c d cs rfl

end Pairs

/-- The first replacement takes out all backslashes that were doubled, and no others. -/
theorem unslash_escape (cs : List Char) :
    replacePairs '\\' '\\' '\\' (escape cs) = cs.flatMap breakChar := by
  unfold escape
  induction cs with
  | nil => rfl
  | cons c cs ih =>
    rw [List.flatMap_cons, List.flatMap_cons, ← ih]
    by_cases hslash : c = '\\'
    · subst hslash
      exact replacePairs_pair _ _ _ _
    by_cases hbreak : c = '\n'
    · subst hbreak
      refine (replacePairs_cons fun _ d hd => ?_).trans
        (congrArg ('\\' :: ·) (replacePairs_cons_of_ne (by decide)))
      cases hd
      decide
    · rw [escapeChar, if_neg hslash, if_neg hbreak, breakChar, if_neg hbreak]
      exact replacePairs_cons_of_ne hslash

theorem head_flatMap_breakChar {cs : List Char} (h : ∀ d ∈ cs.head?, d ≠ 'n') :
    ∀ d ∈ (cs.flatMap breakChar).head?, d ≠ 'n' := by
  cases cs with
  | nil => exact nofun
  | cons c cs =>
    rw [List.flatMap_cons, breakChar]
    split
    · exact head_cons (by decide) _
    · exact head_cons (p := (· ≠ 'n')) (h c rfl) _

/-- The second replacement reads the line feeds that were written, and those that the text only seems to
have. -/
theorem unescape_escape (cs : List Char) : unescape (escape cs) = replacePairs '\\' 'n' '\n' cs := by
  rw [unescape, unslash_escape]
  induction hlength : cs.length using Nat.strong_induction_on generalizing cs with
  | h n ih =>
    cases cs with
    | nil => rfl
    | cons c cs =>
      have hrest := ih cs.length (by simp [← hlength]) cs rfl
      by_cases hpair : c = '\\' ∧ cs.head? = some 'n'
      · obtain ⟨rfl, hn⟩ := hpair
        obtain ⟨cs, rfl⟩ := List.head?_eq_some_iff.mp hn
        have hshort := ih cs.length (by simp only [← hlength, List.length_cons]; omega) cs rfl
        rw [replacePairs_pair, ← hshort]
        exact replacePairs_pair _ _ _ _
      have hhead : c = '\\' → ∀ d ∈ cs.head?, d ≠ 'n' := by
        rintro hslash d hd rfl
        exact hpair ⟨hslash, hd⟩
      rw [replacePairs_cons hhead, ← hrest, List.flatMap_cons]
      by_cases hbreak : c = '\n'
      · subst hbreak
        exact replacePairs_pair _ _ _ _
      · rw [breakChar, if_neg hbreak]
        exact replacePairs_cons fun hslash => head_flatMap_breakChar (hhead hslash)

theorem quote_notMem_escape {cs : List Char} (h : '"' ∉ cs) : '"' ∉ escape cs := by
  intro hmem
  obtain ⟨c, hc, hquote⟩ := List.mem_flatMap.mp hmem
  unfold escapeChar at hquote
  split at hquote
  · exact absurd hquote (by decide)
  · split at hquote
    · exact absurd hquote (by decide)
    · exact h (List.mem_singleton.mp hquote ▸ hc)

/-- A text that was written between quotes is read with a line feed for each backslash before an `n` in
it, and so comes back just if it has no such pair. -/
theorem literal_inQuotes {text : String} (h : '"' ∉ text.toList) (rest : List Char) :
    ∃ read, literal (inQuotes text ++ rest) = some (.literal read, rest.dropWhile isBlank) ∧
      read.toList = replacePairs '\\' 'n' '\n' text.toList ∧
      (read = text ↔ ¬ ['\\', 'n'] <:+: text.toList) := by
  have hread := literal_of_notMem (quote_notMem_escape h) rest
  rw [unescape_escape] at hread
  refine ⟨_, ?_, String.toList_ofList, ?_⟩
  · rw [inQuotes, List.cons_append, List.append_assoc, List.singleton_append]
    exact hread
  · rw [← String.toList_inj, String.toList_ofList]
    exact replacePairs_eq_self_iff '\\' 'n' '\n' text.toList

def pathText : String := "a\\\\\nb\\c\\"

theorem pathText_comes_back :
    '"' ∉ pathText.toList ∧ ¬ ['\\', 'n'] <:+: pathText.toList ∧
      literal (inQuotes pathText) = some (.literal pathText, []) := by
  have htext : pathText.toList = ['a', '\\', '\\', '\n', 'b', '\\', 'c', '\\'] := by decide
  have hquote : '"' ∉ pathText.toList := by rw [htext]; decide
  have hpair : ¬ ['\\', 'n'] <:+: pathText.toList := by rw [htext]; decide
  obtain ⟨read, hread, -, hback⟩ := literal_inQuotes hquote []
  rw [List.append_nil, List.dropWhile_nil, hback.mpr hpair] at hread
  exact ⟨hquote, hpair, hread⟩

/-- A backslash before an `n` is read as a line feed, however it was written. -/
theorem backslashN_lost :
    '"' ∉ "\\n".toList ∧ literal (inQuotes "\\n") = some (.literal "\n", []) ∧
      parse "tree main = Say (text <- \"\\\\n\")" =
        .ok ⟨[⟨"main", .mk "Say" [⟨"text", .literal "\n"⟩] []⟩]⟩ ∧
      "\n" ≠ "\\n" := by
  refine ⟨by decide, ?_, parse_of_readFront ?_, by decide⟩ <;> decide +kernel

end Source

end BehaviorTree
