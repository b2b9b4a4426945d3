import BehaviorTree.Proofs.Source.Layout
import BehaviorTree.Proofs.Source.ParserRuns

/-!
A value is read up to some of the blanks after it, so that the commas and the parenthesis after it are
found behind those that are left: `Source.argList_read`.
-/

namespace BehaviorTree

namespace Source

open Text Text.Parser

section Tokens

variable {cs rest : List Char}

theorem Spaces.skip {front : List Char} (h : Spaces front) (hcs : ∀ c ∈ cs.head?, isSpace c = false) :
    (front ++ cs).dropWhile isSpace = cs := by
  rw [List.dropWhile_append_of_pos h, dropWhile_of_head hcs]

theorem Blanks.skip {front : List Char} (h : Blanks front) (hcs : ∀ c ∈ cs.head?, isBlank c = false) :
    (front ++ cs).dropWhile isBlank = cs := by
  rw [List.dropWhile_append_of_pos h, dropWhile_of_head hcs]

def Lettered (text : List Char) : Prop := ∃ c cs, text = c :: cs ∧ isLetter c = true

namespace Lettered

variable {text : List Char}

theorem append (h : Lettered text) (rest : List Char) : Lettered (text ++ rest) := by
  obtain ⟨c, cs, rfl, hletter⟩ := h
  exact ⟨c, cs ++ rest, rfl, hletter⟩

theorem length_pos (h : Lettered text) : 0 < text.length := by
  obtain ⟨c, cs, rfl, -⟩ := h
  exact Nat.succ_pos _

theorem head_ne (h : Lettered text) {d : Char} (hd : isLetter d = false) : ∀ c ∈ text.head?, c ≠ d := by
  obtain ⟨c, cs, rfl, hletter⟩ := h
  simpa using ne_of_isLetter hletter hd

theorem head_isBlank (h : Lettered text) : ∀ c ∈ text.head?, isBlank c = false := by
  obtain ⟨c, cs, rfl, hletter⟩ := h
  simpa using isBlank_of_isLetter hletter

theorem head_isSpace (h : Lettered text) : ∀ c ∈ text.head?, isSpace c = false := fun c hc =>
  isSpace_of_not_isBlank (h.head_isBlank c hc)

end Lettered

theorem Identifier.lettered {name : String} (h : Identifier name) : Lettered name.toList := by
  obtain ⟨c, cs, hname, hletter, -⟩ := h
  exact ⟨c, cs, hname, hletter⟩

theorem Identifier.read {name : String} (h : Identifier name)
    (hrest : ∀ c ∈ rest.head?, isWordChar c = false) :
    identifier (name.toList ++ rest) = some (name, rest) := by
  obtain ⟨c, cs, hname, hletter, hword⟩ := h
  have hfirst : satisfy isLetter (c :: (cs ++ rest)) = some (c, cs ++ rest) := by
    simp [satisfy, hletter]
  rw [hname, List.cons_append, identifier, bind_of_eq hfirst,
    bind_of_eq (takeWhile_append hword hrest), ← hname, String.ofList_toList]
  rfl

theorem spaced_identifier {name : String} (h : Identifier name)
    (hcs : cs.dropWhile isSpace = name.toList ++ rest)
    (hrest : ∀ c ∈ rest.head?, isWordChar c = false) :
    spaced identifier cs = some (name, rest.dropWhile isSpace) :=
  spaced_of_eq (by rw [hcs, h.read hrest])

theorem spaced_char {c : Char} (hcs : cs.dropWhile isSpace = c :: rest) :
    spaced (char c) cs = some (c, rest.dropWhile isSpace) :=
  spaced_of_eq (by rw [hcs, char_cons])

theorem replacePairs_of_notMem {first second new : Char} {cs : List Char} (h : first ∉ cs) :
    replacePairs first second new cs = cs := by
  induction cs with
  | nil => rfl
  | cons c cs ih =>
    obtain ⟨hc, hcs⟩ := not_or.mp (List.mem_cons.not.mp h)
    cases cs with
    | nil => rfl
    | cons d cs => rw [replacePairs, if_neg (by simp [Ne.symm hc]), ih hcs]

theorem unescape_of_plain {cs : List Char} (h : '\\' ∉ cs) : unescape cs = cs := by
  rw [unescape, replacePairs_of_notMem h, replacePairs_of_notMem h]

theorem literal_of_notMem {cs : List Char} (h : '"' ∉ cs) (rest : List Char) :
    literal ('"' :: (cs ++ ('"' :: rest))) =
      some (.literal (String.ofList (unescape cs)), rest.dropWhile isBlank) := by
  have hinside : ∀ c ∈ cs, decide (c ≠ '"') = true := fun c hc =>
    decide_eq_true fun heq => h (heq ▸ hc)
  have hquote : ∀ c ∈ ('"' :: rest).head?, decide (c ≠ '"') = false := by simp
  have htext := takeWhile_append hinside hquote
  have hstart : ('"' :: (cs ++ ('"' :: rest))).dropWhile isBlank = '"' :: (cs ++ ('"' :: rest)) :=
    List.dropWhile_cons_of_neg (by decide)
  rw [literal, bind_of_eq (blanks_eq _), hstart, bind_of_eq (char_cons _ _), bind_of_eq htext,
    bind_of_eq (char_cons _ _), bind_of_eq (blanks_eq rest)]
  rfl

theorem literal_read {text : String} (h : ∀ c ∈ text.toList, c ≠ '"' ∧ c ≠ '\\') :
    literal ('"' :: (text.toList ++ ('"' :: rest))) =
      some (.literal text, rest.dropWhile isBlank) := by
  have hquote : '"' ∉ text.toList := fun hc => (h _ hc).1 rfl
  have hplain : '\\' ∉ text.toList := fun hc => (h _ hc).2 rfl
  rw [literal_of_notMem hquote, unescape_of_plain hplain, String.ofList_toList]

theorem isBareChar_of_notMem {c : Char}
    (h : c ∉ [' ', '\t', '\r', '\n', ',', '(', ')', '{', '}', '"', '#']) : isBareChar c = true := by
  simp only [List.mem_cons, List.not_mem_nil, or_false, not_or] at h
  simp [isBareChar, isBlank, isSpace, isLineBreak, h]

theorem bare_read {text : String} (hne : text ≠ "") (h : ∀ c ∈ text.toList, isBareChar c = true)
    (hrest : ∀ c ∈ rest.head?, isBareChar c = false) :
    bare (text.toList ++ rest) = some (.bare text, rest) := by
  have htext : text.toList ≠ [] := fun hnil => hne (String.toList_eq_nil_iff.mp hnil)
  rw [bare, bind_of_eq (takeWhile1_append htext h hrest), String.ofList_toList]
  rfl

end Tokens

section Arguments

variable {cs rest : List Char}

theorem head_spaces {front : List Char} (h : Spaces front) {p : Char → Prop}
    (hspace : ∀ c, isSpace c = true → p c) (hrest : ∀ c ∈ rest.head?, p c) :
    ∀ c ∈ (front ++ rest).head?, p c := by
  cases front with
  | nil => exact hrest
  | cons c front => exact head_cons (hspace c (h c List.mem_cons_self)) (front ++ rest)

theorem head_bracket {before : List Char} (hbefore : Spaces before) {c : Char}
    (hc : isWordChar c = false) (rest : List Char) :
    ∀ d ∈ (before ++ c :: rest).head?, isWordChar d = false :=
  head_spaces hbefore (fun _ hd => isWordChar_of_isBlank (isBlank_of_isSpace hd)) (by simpa using hc)

theorem head_bare {text : String} (hne : text ≠ "")
    (h : ∀ c ∈ text.toList, c ∉ [' ', '\t', '\r', '\n', ',', '(', ')', '{', '}', '"', '#'])
    (rest : List Char) : ∀ c ∈ (text.toList ++ rest).head?, isBlank c = false ∧ c ≠ '"' := by
  intro c hc
  have hfirst := head_append (String.toList_eq_nil_iff.not.mpr hne) h rest c hc
  simp only [List.mem_cons, List.not_mem_nil, or_false, not_or] at hfirst
  simp [isBlank, isSpace, isLineBreak, hfirst]

theorem head_value {value : ArgValue} {text : List Char} (h : value.Written text) (rest : List Char) :
    ∀ c ∈ (text ++ rest).head?, isBlank c = false := by
  cases h with
  | literal _ => exact head_cons (by decide) _
  | bare hne hplain => exact fun c hc => (head_bare hne hplain rest c hc).1

/-- A value is read up to some of the blanks after it. -/
theorem value_read {value : ArgValue} {text : List Char} (h : value.Written text)
    (hrest : ∀ c ∈ rest.head?, isBareChar c = false) :
    ∃ out, (literal <|> bare) (text ++ rest) = some (value, out) ∧ Trims rest out := by
  cases h with
  | literal hplain =>
    refine ⟨rest.dropWhile isBlank, ?_, trims_dropWhile (fun _ => id) rest⟩
    rw [List.cons_append, List.append_assoc, List.singleton_append]
    exact orElse_of_eq (literal_read hplain) bare
  | @bare text hne hplain =>
    have hbare : ∀ c ∈ text.toList, isBareChar c = true := fun c hc =>
      isBareChar_of_notMem (hplain c hc)
    have hhead := head_bare hne hplain rest
    have hliteral : literal (text.toList ++ rest) = none := by
      rw [literal, bind_of_eq (blanks_eq _), dropWhile_of_head fun c hc => (hhead c hc).1,
        bind_of_none (char_of_head fun c hc => (hhead c hc).2)]
    refine ⟨rest, ?_, .refl rest⟩
    rw [orElse_of_none hliteral, bare_read hne hbare hrest]

theorem arg_read {a : Arg} {text : List Char} (h : a.Written text)
    (hcs : cs.dropWhile isSpace = text ++ rest) (hrest : ∀ c ∈ rest.head?, isBareChar c = false) :
    ∃ out, arg cs = some (a, out) ∧ Trims rest out := by
  obtain @⟨name, value, before, after, text, hname, hbefore, hafter, hvalue⟩ := h
  simp only [List.append_assoc, List.cons_append] at hcs
  have hstart : ∀ c ∈ (text ++ rest).head?, isSpace c = false := fun c hc =>
    isSpace_of_not_isBlank (head_value hvalue rest c hc)
  have harrow : spaced (word ['<', '-'])
      ((before ++ ('<' :: '-' :: (after ++ (text ++ rest)))).dropWhile isSpace) =
        some ((), text ++ rest) := by
    rw [hbefore.skip (head_cons (by decide) _), ← hafter.skip hstart]
    refine spaced_of_eq ?_
    rw [hafter.skip hstart, List.dropWhile_cons_of_neg (by decide)]
    exact word_append ['<', '-'] (after ++ (text ++ rest))
  obtain ⟨out, hread, htrims⟩ := value_read hvalue hrest
  have hspaced : spaced (literal <|> bare) (text ++ rest) = some (value, out.dropWhile isSpace) :=
    spaced_of_eq (by rw [dropWhile_of_head hstart, hread])
  refine ⟨out.dropWhile isSpace, ?_, htrims.trans (trims_dropWhile (fun _ => isBlank_of_isSpace) out)⟩
  rw [arg, bind_of_eq (spaced_identifier hname hcs (head_bracket hbefore (by decide) _)),
    bind_of_eq harrow, bind_of_eq hspaced]
  rfl

theorem lettered_arg {a : Arg} {text : List Char} (h : a.Written text) : Lettered text := by
  cases h with
  | mk hname _ _ _ => exact hname.lettered.append _

theorem lettered_argRow {args : List Arg} {text : List Char} (h : Arg.RowWritten args text) :
    Lettered text := by
  cases h with
  | last harg => exact lettered_arg harg
  | cons harg _ _ _ => exact (lettered_arg harg).append _

/-- An argument, and the commas after it. -/
def argItem : Parser Arg := between blanks arg do let _ ← many comma

/-- A bare value ends where nothing but blanks come before a comma or a parenthesis. -/
theorem isBareChar_of_dropWhile (h : ∀ c ∈ (cs.dropWhile isBlank).head?, isBareChar c = false) :
    ∀ c ∈ cs.head?, isBareChar c = false := by
  cases cs with
  | nil => simp
  | cons c cs =>
    by_cases hc : isBlank c = true
    · simp [isBareChar, hc]
    · rwa [List.dropWhile_cons_of_neg hc] at h

theorem argItem_read {a : Arg} {text : List Char} (h : a.Written text)
    (hcs : cs.dropWhile isBlank = text ++ rest)
    (hrest : ∀ c ∈ (rest.dropWhile isBlank).head?, isBareChar c = false) :
    ∃ out, Trims rest out ∧ ∀ commas next, many comma out = some (commas, next) →
      argItem cs = some (a, next) := by
  have hstart : (text ++ rest).dropWhile isSpace = text ++ rest :=
    dropWhile_of_head ((lettered_arg h).append rest).head_isSpace
  obtain ⟨out, hread, htrims⟩ := arg_read h hstart (isBareChar_of_dropWhile hrest)
  refine ⟨out, htrims, fun commas next hcommas => ?_⟩
  rw [argItem, between, bind_of_eq (blanks_eq cs), hcs, bind_of_eq hread,
    bind_of_eq (bind_of_eq hcommas _)]
  rfl

theorem argItem_of_head (h : ∀ c ∈ (cs.dropWhile isBlank).head?, isLetter c = false) :
    argItem cs = none := by
  have hname : spaced identifier (cs.dropWhile isBlank) = none :=
    spaced_of_none (identifier_of_head (by rwa [dropWhile_isSpace_dropWhile_isBlank]))
  have harg : arg (cs.dropWhile isBlank) = none := bind_of_none hname _
  rw [argItem, between, bind_of_eq (blanks_eq cs), bind_of_none harg]

theorem many_comma_cons (h : cs.dropWhile isBlank = ',' :: rest)
    (hrest : ∀ c ∈ (rest.dropWhile isBlank).head?, c ≠ ',') :
    many comma cs = some ([()], rest) := by
  have hless : rest.length < cs.length :=
    length_lt_of_dropWhile (show _ = [','] ++ rest from h) Nat.one_pos le_rfl
  exact (Rounds.cons (comma_cons h) hless .nil).many (comma_of_head hrest)

/-- Arguments are read up to the closing parenthesis, or to some of the blanks before it. -/
theorem argRow_read {args : List Arg} {text : List Char} (h : Arg.RowWritten args text)
    (hcs : cs.dropWhile isBlank = text ++ rest) {more : List Char}
    (hrest : rest.dropWhile isBlank = ')' :: more) :
    ∃ out, Rounds argItem cs args out ∧ Trims rest out := by
  induction h generalizing cs with
  | last harg =>
    obtain ⟨out, htrims, hitem⟩ :=
      argItem_read harg hcs (by rw [hrest]; exact head_cons (by decide) more)
    have hlast : comma out = none := comma_of_head (by
      rw [htrims.dropWhile, hrest]
      exact head_cons (by decide) more)
    have hless := length_lt_of_dropWhile hcs (lettered_arg harg).length_pos htrims.length_le
    exact ⟨out, .cons (hitem _ _ (many_of_none hlast)) hless .nil, htrims⟩
  | @cons a args text before after row harg hbefore hafter hrow ih =>
    have hnext : (after ++ (row ++ rest)).dropWhile isBlank = row ++ rest :=
      hafter.skip ((lettered_argRow hrow).append rest).head_isBlank
    have hcomma : (before ++ (',' :: (after ++ (row ++ rest)))).dropWhile isBlank =
        ',' :: (after ++ (row ++ rest)) :=
      hbefore.skip (head_cons (by decide) _)
    simp only [List.append_assoc, List.cons_append] at hcs
    obtain ⟨out, htrims, hitem⟩ :=
      argItem_read harg hcs (by rw [hcomma]; exact head_cons (by decide) _)
    have hmany : many comma out = some ([()], after ++ (row ++ rest)) :=
      many_comma_cons (htrims.dropWhile.trans hcomma) (by
        rw [hnext]
        exact ((lettered_argRow hrow).append rest).head_ne (by decide))
    have hless : (after ++ (row ++ rest)).length < cs.length :=
      length_lt_of_dropWhile hcs (lettered_arg harg).length_pos (by
        simp only [List.length_append, List.length_cons]
        omega)
    obtain ⟨last, hrounds, hlast⟩ := ih hnext
    exact ⟨last, .cons (hitem _ _ hmany) hless hrounds, hlast⟩

/-- Arguments are read with their parentheses, or left out, up to the spaces after them. -/
theorem argList_read {args : List Arg} {text : List Char} (h : Arg.ListWritten args text)
    (hrest : ∀ c ∈ (rest.dropWhile isSpace).head?, c ≠ '(') :
    ∃ read, optional argList ((text ++ rest).dropWhile isSpace) =
      some (read, rest.dropWhile isSpace) ∧ read.getD [] = args := by
  cases h with
  | none =>
    have hparen : spaced (char '(') (rest.dropWhile isSpace) = none :=
      spaced_of_none (char_of_head (by rwa [List.dropWhile_idempotent]))
    exact ⟨none, optional_of_none (bind_of_none hparen _), rfl⟩
  | @parens _ before first row last hbefore hfirst hrow hlast =>
    have hopen : ((before ++ ('(' :: (first ++ (row ++ (last ++ [')']))))) ++ rest).dropWhile isSpace =
        '(' :: (first ++ (row ++ (last ++ (')' :: rest)))) := by
      simp only [List.append_assoc, List.cons_append, List.nil_append]
      exact hbefore.skip (head_cons (by decide) _)
    have hstart : ((first ++ (row ++ (last ++ (')' :: rest)))).dropWhile isSpace).dropWhile isBlank =
        row ++ (last ++ (')' :: rest)) := by
      rw [dropWhile_isBlank_dropWhile fun _ => isBlank_of_isSpace]
      exact hfirst.skip ((lettered_argRow hrow).append _).head_isBlank
    have hclose : (last ++ (')' :: rest)).dropWhile isBlank = ')' :: rest :=
      hlast.skip (head_cons (by decide) rest)
    obtain ⟨out, hrounds, htrims⟩ := argRow_read hrow hstart hclose
    have hout : out.dropWhile isBlank = ')' :: rest := htrims.dropWhile.trans hclose
    have hargs : Source.args ((first ++ (row ++ (last ++ (')' :: rest)))).dropWhile isSpace) =
        some (args, out) :=
      hrounds.many (argItem_of_head (by rw [hout]; exact head_cons (by decide) rest))
    refine ⟨some args, optional_of_eq ?_, rfl⟩
    rw [hopen, argList, bind_of_eq (spaced_char (List.dropWhile_cons_of_neg (by decide))),
      bind_of_eq hargs, bind_of_eq (blanks_eq out), hout, bind_of_eq (char_cons ')' rest),
      bind_of_eq (spaces_eq rest)]
    rfl

end Arguments

end Source

end BehaviorTree
