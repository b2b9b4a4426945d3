import Mathlib.Data.List.DropRight
import Mathlib.Data.List.TakeWhile
import BehaviorTree.Source.Parser

namespace BehaviorTree

namespace Text

theorem dropWhile_of_head {q : Char → Bool} {cs : List Char} (h : ∀ c ∈ cs.head?, q c = false) :
    cs.dropWhile q = cs := by
  cases cs with
  | nil => rfl
  | cons c cs => exact List.dropWhile_cons_of_neg (by simp [h c rfl])

theorem takeWhile_of_head {q : Char → Bool} {cs : List Char} (h : ∀ c ∈ cs.head?, q c = false) :
    cs.takeWhile q = [] := by
  cases cs with
  | nil => rfl
  | cons c cs => exact List.takeWhile_cons_of_neg (by simp [h c rfl])

theorem head_dropWhile (q : Char → Bool) (cs : List Char) :
    ∀ c ∈ (cs.dropWhile q).head?, q c = false := by
  intro c hc
  have hhead := List.head?_dropWhile_not q cs
  rw [Option.mem_def.mp hc] at hhead
  simpa using hhead

theorem head_append {word : List Char} (hne : word ≠ []) {p : Char → Prop} (h : ∀ c ∈ word, p c)
    (rest : List Char) : ∀ c ∈ (word ++ rest).head?, p c := by
  cases word with
  | nil => exact (hne rfl).elim
  | cons c word => simpa using h c List.mem_cons_self

theorem head_cons {p : Char → Prop} {c : Char} (hc : p c) (cs : List Char) :
    ∀ d ∈ (c :: cs).head?, p d := by
  simpa using hc

theorem length_lt_of_dropWhile {q : Char → Bool} {cs text rest out : List Char}
    (hcs : cs.dropWhile q = text ++ rest) (htext : 0 < text.length) (hout : out.length ≤ rest.length) :
    out.length < cs.length := by
  have hle := cs.length_dropWhile_le q
  rw [hcs, List.length_append] at hle
  omega

namespace Parser

variable {α β : Type} {p : Parser α} {cs rest : List Char} {a : α}

theorem bind_of_eq (h : p cs = some (a, rest)) (f : α → Parser β) : (p >>= f) cs = f a rest := by
  change (p cs).bind (fun r => f r.1 r.2) = f a rest
  rw [h, Option.bind_some]

theorem bind_of_none (h : p cs = none) (f : α → Parser β) : (p >>= f) cs = none := by
  change (p cs).bind (fun r => f r.1 r.2) = none
  rw [h, Option.bind_none]

theorem map_of_eq (h : p cs = some (a, rest)) (f : α → β) : (f <$> p) cs = some (f a, rest) :=
  bind_of_eq h fun a => pure (f a)

theorem map_of_none (h : p cs = none) (f : α → β) : (f <$> p) cs = none :=
  bind_of_none h fun a => pure (f a)

theorem orElse_of_eq (h : p cs = some (a, rest)) (q : Parser α) :
    (p <|> q) cs = some (a, rest) := by
  change (p cs <|> q cs) = some (a, rest)
  rw [h]
  rfl

theorem orElse_of_none (h : p cs = none) (q : Parser α) : (p <|> q) cs = q cs := by
  change (p cs <|> q cs) = q cs
  rw [h]
  rfl

theorem optional_of_eq (h : p cs = some (a, rest)) : optional p cs = some (some a, rest) :=
  orElse_of_eq (map_of_eq h some) (pure none)

theorem optional_of_none (h : p cs = none) : optional p cs = some (none, cs) :=
  orElse_of_none (map_of_none h some) (pure none)

theorem char_cons (c : Char) (cs : List Char) : char c (c :: cs) = some (c, cs) := by
  simp [char, satisfy]

theorem satisfy_of_head {q : Char → Bool} (h : ∀ c ∈ cs.head?, q c = false) : satisfy q cs = none := by
  cases cs with
  | nil => rfl
  | cons c cs => simp [satisfy, h c rfl]

theorem char_of_head {c : Char} (h : ∀ d ∈ cs.head?, d ≠ c) : char c cs = none :=
  satisfy_of_head fun d hd => decide_eq_false (h d hd)

theorem word_append (word : List Char) (cs : List Char) :
    Parser.word word (word ++ cs) = some ((), cs) := by
  induction word with
  | nil => rfl
  | cons c word ih => exact (bind_of_eq (char_cons c (word ++ cs)) _).trans ih

section TakeWhile

variable {q : Char → Bool} {word : List Char}

theorem takeWhile_append (hword : ∀ c ∈ word, q c = true) (hrest : ∀ c ∈ rest.head?, q c = false) :
    Parser.takeWhile q (word ++ rest) = some (word, rest) := by
  rw [Parser.takeWhile, List.takeWhile_append_of_pos hword, List.dropWhile_append_of_pos hword,
    takeWhile_of_head hrest, dropWhile_of_head hrest, List.append_nil]

theorem takeWhile1_append (hne : word ≠ []) (hword : ∀ c ∈ word, q c = true)
    (hrest : ∀ c ∈ rest.head?, q c = false) : takeWhile1 q (word ++ rest) = some (word, rest) := by
  cases word with
  | nil => exact (hne rfl).elim
  | cons c word =>
    have hfirst : satisfy q (c :: (word ++ rest)) = some (c, word ++ rest) := by
      simp [satisfy, hword c List.mem_cons_self]
    have htail := takeWhile_append (fun d hd => hword d (List.mem_cons_of_mem c hd)) hrest
    rw [List.cons_append, takeWhile1, bind_of_eq hfirst, bind_of_eq htail]
    rfl

end TakeWhile

/-- Rounds in which a parser reads something, each of which takes a character. -/
inductive Rounds (p : Parser α) : List Char → List α → List Char → Prop where
  | nil {cs : List Char} : Rounds p cs [] cs
  | cons {cs rest out : List Char} {a : α} {as : List α} :
    p cs = some (a, rest) → rest.length < cs.length → Rounds p rest as out →
    Rounds p cs (a :: as) out

theorem Rounds.trans {out last : List Char} {as bs : List α} (h : Rounds p cs as out)
    (hrest : Rounds p out bs last) : Rounds p cs (as ++ bs) last := by
  induction h with
  | nil => exact hrest
  | cons hround hless _ ih => exact .cons hround hless (ih hrest)

theorem Rounds.manyUpTo {out : List Char} {as : List α} (h : Rounds p cs as out)
    (hstop : p out = none) {fuel : Nat} (hfuel : cs.length ≤ fuel) :
    Parser.manyUpTo p fuel cs = some (as, out) := by
  induction h generalizing fuel with
  | nil =>
    cases fuel with
    | zero => rfl
    | succ fuel => simp only [Parser.manyUpTo, hstop]
  | cons hround hless _ ih =>
    cases fuel with
    | zero => omega
    | succ fuel => simp only [Parser.manyUpTo, hround, ih hstop (show _ ≤ fuel by omega)]

theorem Rounds.many {out : List Char} {as : List α} (h : Rounds p cs as out) (hstop : p out = none) :
    Parser.many p cs = some (as, out) :=
  h.manyUpTo hstop le_rfl

theorem many_of_none (h : p cs = none) : Parser.many p cs = some ([], cs) := Rounds.nil.many h

end Parser

end Text

namespace Source

open Text Text.Parser

section Skips

variable {α : Type} {p : Parser α} {cs rest : List Char} {a : α}

theorem isBlank_of_isSpace {c : Char} (h : isSpace c = true) : isBlank c = true := by
  simp [isBlank, h]

theorem isBlank_of_isLineBreak {c : Char} (h : isLineBreak c = true) : isBlank c = true := by
  simp [isBlank, h]

theorem eq_of_isBlank {c : Char} (h : isBlank c = true) :
    c = ' ' ∨ c = '\t' ∨ c = '\r' ∨ c = '\n' := by
  simpa only [isBlank, isSpace, isLineBreak, Bool.or_eq_true, decide_eq_true_eq, or_assoc] using h

theorem isSpace_of_not_isBlank {c : Char} (h : isBlank c = false) : isSpace c = false := by
  by_contra hspace
  simp [isBlank_of_isSpace (Bool.not_eq_false _ ▸ hspace)] at h

theorem dropWhile_isBlank_dropWhile {q : Char → Bool} (hq : ∀ c, q c = true → isBlank c = true)
    (cs : List Char) : (cs.dropWhile q).dropWhile isBlank = cs.dropWhile isBlank := by
  induction cs with
  | nil => rfl
  | cons c cs ih =>
    by_cases hc : q c = true
    · rw [List.dropWhile_cons_of_pos hc, List.dropWhile_cons_of_pos (hq c hc), ih]
    · rw [List.dropWhile_cons_of_neg hc]

theorem dropWhile_isSpace_dropWhile_isBlank (cs : List Char) :
    (cs.dropWhile isBlank).dropWhile isSpace = cs.dropWhile isBlank :=
  dropWhile_of_head fun c hc => isSpace_of_not_isBlank (head_dropWhile isBlank cs c hc)

theorem spaces_eq (cs : List Char) : spaces cs = some ((), cs.dropWhile isSpace) := rfl

theorem blanks_eq (cs : List Char) : blanks cs = some ((), cs.dropWhile isBlank) := rfl

theorem spaced_of_eq (h : p (cs.dropWhile isSpace) = some (a, rest)) :
    spaced p cs = some (a, rest.dropWhile isSpace) := by
  rw [spaced, between, bind_of_eq (spaces_eq cs), bind_of_eq h, bind_of_eq (spaces_eq rest)]
  rfl

theorem spaced_of_none (h : p (cs.dropWhile isSpace) = none) : spaced p cs = none := by
  rw [spaced, between, bind_of_eq (spaces_eq cs), bind_of_none h]

end Skips

/-- A text without some of the blanks before it. -/
def Trims (cs out : List Char) : Prop := ∃ front, (∀ c ∈ front, isBlank c = true) ∧ cs = front ++ out

theorem Trims.refl (cs : List Char) : Trims cs cs := ⟨[], by simp, rfl⟩

theorem Trims.trans {cs out last : List Char} (h : Trims cs out) (hlast : Trims out last) :
    Trims cs last := by
  obtain ⟨front, hfront, rfl⟩ := h
  obtain ⟨more, hmore, rfl⟩ := hlast
  refine ⟨front ++ more, fun c hc => ?_, by simp⟩
  rcases List.mem_append.mp hc with hc | hc
  · exact hfront c hc
  · exact hmore c hc

theorem trims_dropWhile {q : Char → Bool} (hq : ∀ c, q c = true → isBlank c = true)
    (cs : List Char) : Trims cs (cs.dropWhile q) :=
  ⟨cs.takeWhile q, fun c hc => hq c (List.mem_takeWhile_imp hc), List.takeWhile_append_dropWhile.symm⟩

theorem Trims.length_le {cs out : List Char} (h : Trims cs out) : out.length ≤ cs.length := by
  obtain ⟨front, -, rfl⟩ := h
  simp

theorem Trims.dropWhile {cs out : List Char} (h : Trims cs out) :
    out.dropWhile isBlank = cs.dropWhile isBlank := by
  obtain ⟨front, hfront, rfl⟩ := h
  rw [List.dropWhile_append_of_pos hfront]

section Tokens

variable {cs rest : List Char}

theorem ne_of_isLetter {c d : Char} (h : isLetter c = true) (hd : isLetter d = false) : c ≠ d := by
  rintro rfl
  rw [h] at hd
  cases hd

theorem isBlank_of_isLetter {c : Char} (h : isLetter c = true) : isBlank c = false := by
  by_contra hblank
  rcases eq_of_isBlank ((Bool.not_eq_false _).mp hblank) with rfl | rfl | rfl | rfl <;>
    exact absurd h (by decide)

theorem isWordChar_of_isBlank {c : Char} (h : isBlank c = true) : isWordChar c = false := by
  rcases eq_of_isBlank h with rfl | rfl | rfl | rfl <;> decide

theorem lineBreaks_of_head (h : ∀ c ∈ (cs.dropWhile isSpace).head?, isLineBreak c = false) :
    lineBreaks cs = none :=
  spaced_of_none (bind_of_none (bind_of_none (satisfy_of_head h) _) _)

theorem lineBreaks_cons {c : Char} (h : cs.dropWhile isSpace = c :: rest)
    (hc : isLineBreak c = true) :
    lineBreaks cs = some ((), (rest.dropWhile isLineBreak).dropWhile isSpace) := by
  have hread : takeWhile1 isLineBreak (cs.dropWhile isSpace) =
      some (c :: rest.takeWhile isLineBreak, rest.dropWhile isLineBreak) := by
    have hfirst : satisfy isLineBreak (c :: rest) = some (c, rest) := by simp [satisfy, hc]
    rw [h, takeWhile1, bind_of_eq hfirst]
    rfl
  refine spaced_of_eq ?_
  rw [bind_of_eq hread]
  rfl

/-- All blanks up to the last line break among them are skipped, and the spaces after that. -/
theorem many_lineBreaks (cs : List Char) : ∃ units out, many lineBreaks cs = some (units, out) ∧
    Trims cs out ∧ out.dropWhile isSpace = cs.dropWhile isBlank := by
  suffices h : ∃ units out, Rounds lineBreaks cs units out ∧ lineBreaks out = none ∧ Trims cs out ∧
      out.dropWhile isSpace = cs.dropWhile isBlank by
    obtain ⟨units, out, hrounds, hstop, h⟩ := h
    exact ⟨units, out, hrounds.many hstop, h⟩
  -- Where no line break comes after the spaces, the blanks are skipped; else a round takes it.
  induction hlength : cs.length using Nat.strong_induction_on generalizing cs with
  | h n ih =>
    have hspace := dropWhile_isBlank_dropWhile (fun _ => isBlank_of_isSpace) cs
    cases hcs : cs.dropWhile isSpace with
    | nil =>
      refine ⟨[], cs, .nil, lineBreaks_of_head (by simp [hcs]), .refl cs, ?_⟩
      rw [← hspace, hcs]
      rfl
    | cons c rest =>
      have hhead := head_dropWhile isSpace cs
      rw [hcs, List.head?_cons] at hhead
      by_cases hbreak : isLineBreak c = true
      · have hfront : Trims cs (c :: rest) := hcs ▸ trims_dropWhile (fun _ => isBlank_of_isSpace) cs
        have hfirst : Trims (c :: rest) rest := ⟨[c], by simp [isBlank_of_isLineBreak hbreak], rfl⟩
        have hbreaks := trims_dropWhile (fun _ => isBlank_of_isLineBreak) rest
        have hspaces := trims_dropWhile (fun _ => isBlank_of_isSpace) (rest.dropWhile isLineBreak)
        have htrims := ((hfront.trans hfirst).trans hbreaks).trans hspaces
        have hless : ((rest.dropWhile isLineBreak).dropWhile isSpace).length < cs.length :=
          length_lt_of_dropWhile (show _ = [c] ++ rest from hcs) Nat.one_pos
            ((List.length_dropWhile_le _ _).trans (List.length_dropWhile_le _ _))
        obtain ⟨units, out, hrounds, hstop, hrest, hskipped⟩ := ih _ (hlength ▸ hless) _ rfl
        exact ⟨() :: units, out, .cons (lineBreaks_cons hcs hbreak) hless hrounds, hstop,
          htrims.trans hrest, hskipped.trans htrims.dropWhile⟩
      · have hstands : isBlank c = false := by simp [isBlank, hhead c rfl, hbreak]
        refine ⟨[], cs, .nil, lineBreaks_of_head ?_, .refl cs, ?_⟩
        · simpa [hcs] using hbreak
        · rw [← hspace, hcs, List.dropWhile_cons_of_neg (by simp [hstands])]

theorem comment_of_head (h : ∀ c ∈ (cs.dropWhile isSpace).head?, c ≠ '#') : comment cs = none := by
  rw [comment, bind_of_eq (spaces_eq cs), bind_of_none (char_of_head h)]

theorem comment_cons (h : cs.dropWhile isSpace = '#' :: rest) :
    comment cs = some ((), rest.dropWhile fun c => !isLineBreak c) := by
  rw [comment, bind_of_eq (spaces_eq cs), h, bind_of_eq (char_cons '#' rest)]
  rfl

def commentOr {α : Type} (comment : Parser Unit) (p : Parser α) : Parser (Option α) :=
  (do comment; return none) <|> some <$> p

section CommentOr

variable {α : Type} {comment : Parser Unit} {p : Parser α} {a : α}

theorem commentOr_of_comment (h : comment cs = some ((), rest)) :
    commentOr comment p cs = some (none, rest) :=
  orElse_of_eq (bind_of_eq h _) _

theorem commentOr_of_eq (h : comment cs = none) (hp : p cs = some (a, rest)) :
    commentOr comment p cs = some (some a, rest) := by
  rw [commentOr, orElse_of_none (bind_of_none h _)]
  exact map_of_eq hp some

theorem commentOr_of_none (h : comment cs = none) (hp : p cs = none) :
    commentOr comment p cs = none := by
  rw [commentOr, orElse_of_none (bind_of_none h _)]
  exact map_of_none hp some

end CommentOr

theorem comma_of_head (h : ∀ c ∈ (cs.dropWhile isBlank).head?, c ≠ ',') : comma cs = none := by
  rw [comma, bind_of_eq (blanks_eq cs), bind_of_none (char_of_head h)]

theorem comma_cons (h : cs.dropWhile isBlank = ',' :: rest) : comma cs = some ((), rest) := by
  rw [comma, bind_of_eq (blanks_eq cs), h, bind_of_eq (char_cons ',' rest)]
  rfl

theorem identifier_of_head (h : ∀ c ∈ cs.head?, isLetter c = false) : identifier cs = none :=
  bind_of_none (satisfy_of_head h) _

end Tokens

end Source

end BehaviorTree
