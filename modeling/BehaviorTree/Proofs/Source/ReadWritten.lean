import BehaviorTree.Proofs.Source.ReadArguments

namespace BehaviorTree

namespace Source

open Text Text.Parser

section Filler

variable {cs rest : List Char}

/-- No filler stands at the front of a text. -/
def Solid (rest : List Char) : Prop := ∀ c ∈ rest.head?, isBlank c = false ∧ c ≠ '#'

/-- The end of a text or of a block of nodes. -/
def Closes (rest : List Char) : Prop := ∀ c ∈ rest.head?, c = '}'

/-- What may come after a node without being taken for a part of it. -/
structure Parts (rest : List Char) : Prop where
  ends : ∀ c ∈ rest.head?, isWordChar c = false
  bare : ∀ c ∈ (rest.dropWhile isSpace).head?, c ≠ '(' ∧ c ≠ '{'

theorem Lettered.solid (h : Lettered rest) : Solid rest := fun c hc =>
  ⟨h.head_isBlank c hc, h.head_ne (by decide) c hc⟩

theorem Closes.solid (h : Closes rest) : Solid rest := by
  intro c hc
  rw [h c hc]
  decide

theorem Solid.isSpace (h : Solid rest) : rest.dropWhile isSpace = rest :=
  dropWhile_of_head fun c hc => isSpace_of_not_isBlank (h c hc).1

/-- What is left of a text once the spaces at its front are skipped, and a comment after them. -/
def trail (cs : List Char) : List Char :=
  match cs.dropWhile isSpace with
  | '#' :: line => line.dropWhile fun c => !isLineBreak c
  | rest => rest

theorem trail_cons {line : List Char} (h : cs.dropWhile isSpace = '#' :: line) :
    trail cs = line.dropWhile fun c => !isLineBreak c := by
  simp only [trail, h]

theorem trail_of_head (h : ∀ c ∈ (cs.dropWhile isSpace).head?, c ≠ '#') :
    trail cs = cs.dropWhile isSpace := by
  rw [trail]
  split
  · next heq =>
    rw [heq] at h
    exact (h '#' rfl rfl).elim
  · rfl

theorem length_trail_le (cs : List Char) : (trail cs).length ≤ cs.length := by
  have hle := cs.length_dropWhile_le isSpace
  rw [trail]
  split
  · next line heq =>
    have hline := line.length_dropWhile_le fun c => !isLineBreak c
    rw [heq, List.length_cons] at hle
    omega
  · exact hle

theorem optional_comment (cs : List Char) :
    ∃ read, optional comment (cs.dropWhile isSpace) = some (read, trail cs) := by
  have hself := List.dropWhile_idempotent isSpace cs
  by_cases h : ∃ line, cs.dropWhile isSpace = '#' :: line
  · obtain ⟨line, hline⟩ := h
    refine ⟨some (), optional_of_eq ?_⟩
    rw [comment_cons (hself.trans hline), trail_cons hline]
  · have hhead : ∀ c ∈ (cs.dropWhile isSpace).head?, c ≠ '#' := by
      rintro c hc rfl
      exact h (List.head?_eq_some_iff.mp hc)
    refine ⟨none, ?_⟩
    rw [trail_of_head hhead]
    exact optional_of_none (comment_of_head (by rwa [hself]))

theorem dropWhile_line {line : List Char} (hline : ∀ d ∈ line, isLineBreak d = false) {c : Char}
    (hc : isLineBreak c = true) (cs : List Char) :
    ((line ++ c :: cs).dropWhile fun d => !isLineBreak d) = c :: cs := by
  rw [List.dropWhile_append_of_pos fun d hd => by simp [hline d hd]]
  exact List.dropWhile_cons_of_neg (by simp [hc])

theorem Filler.trail {filler : List Char} (h : Filler filler) (hrest : Solid rest) :
    ∃ left, Filler left ∧
      (Source.trail (filler ++ rest)).dropWhile isBlank = (left ++ rest).dropWhile isBlank := by
  induction h with
  | nil =>
    refine ⟨[], .nil, ?_⟩
    rw [List.nil_append, trail_of_head, hrest.isSpace]
    rw [hrest.isSpace]
    exact fun c hc => (hrest c hc).2
  | @blank c cs hc hfiller ih =>
    by_cases hspace : isSpace c = true
    · have hskip : Source.trail (c :: cs ++ rest) = Source.trail (cs ++ rest) := by
        rw [Source.trail, Source.trail, List.cons_append, List.dropWhile_cons_of_pos hspace]
      rw [hskip]
      exact ih
    · have hself : (c :: cs ++ rest).dropWhile isSpace = c :: cs ++ rest :=
        List.dropWhile_cons_of_neg hspace
      have hhash : c ≠ '#' := by
        rintro rfl
        exact absurd hc (by decide)
      refine ⟨c :: cs, .blank hc hfiller, ?_⟩
      rw [trail_of_head, hself]
      rw [hself]
      simpa using hhash
  | @comment line c cs hline hc hfiller _ =>
    have hself : ('#' :: (line ++ c :: cs) ++ rest).dropWhile isSpace =
        '#' :: (line ++ c :: (cs ++ rest)) := by
      rw [List.cons_append, List.append_assoc, List.cons_append]
      exact List.dropWhile_cons_of_neg (by decide)
    refine ⟨c :: cs, .blank (isBlank_of_isLineBreak hc) hfiller, ?_⟩
    rw [trail_cons hself, dropWhile_line hline hc, List.cons_append]

theorem Filler.parts {filler : List Char} (h : Filler filler) (hrest : Solid rest)
    (hbare : ∀ c ∈ rest.head?, c ≠ '(' ∧ c ≠ '{')
    (hends : filler = [] → ∀ c ∈ rest.head?, isWordChar c = false) : Parts (filler ++ rest) := by
  constructor
  · cases h with
    | nil => exact hends rfl
    | blank hc _ => simpa using isWordChar_of_isBlank hc
    | comment _ _ _ => exact head_cons (by decide) _
  · clear hends
    induction h with
    | nil => rwa [List.nil_append, hrest.isSpace]
    | @blank c _ hc _ ih =>
      by_cases hspace : isSpace c = true
      · rwa [List.cons_append, List.dropWhile_cons_of_pos hspace]
      · rw [List.cons_append, List.dropWhile_cons_of_neg hspace]
        rcases eq_of_isBlank hc with rfl | rfl | rfl | rfl <;> exact head_cons (by decide) _
    | comment _ _ _ =>
      rw [List.cons_append, List.dropWhile_cons_of_neg (by decide)]
      exact head_cons (by decide) _

end Filler

section Spread

variable {α : Type} {item : Parser (Option α)} {q : Char → Bool} {cs rest : List Char}

/-- A round of a loop drops a comment, and skips the blanks after it up to some of those in `q`. -/
def Skims (item : Parser (Option α)) (q : Char → Bool) : Prop :=
  ∀ cs line, cs.dropWhile q = '#' :: line → ∃ out, item cs = some (none, out) ∧
    out.length < cs.length ∧
      out.dropWhile q = (line.dropWhile fun c => !isLineBreak c).dropWhile isBlank

/-- A round of a loop reads `a` from a text, and skips a comment and the blanks after it up to some of
those in `q`. -/
structure ReadsFrom (item : Parser (Option α)) (q : Char → Bool) (a : α) (text : List Char) :
    Prop where
  lettered : Lettered text
  reads : ∀ cs rest, cs.dropWhile q = text ++ rest → Parts rest → ∃ out, item cs = some (some a, out) ∧
    out.length < cs.length ∧ out.dropWhile q = (trail rest).dropWhile isBlank

/-- A loop stands before a text whose blanks it has skipped, or a comment too that came after what it
read last. -/
def StandsAt (q : Char → Bool) (cs text : List Char) : Prop :=
  cs.dropWhile q = text.dropWhile isBlank ∨ cs.dropWhile q = (trail text).dropWhile isBlank

theorem Filler.rounds {filler : List Char} (h : Filler filler) (hskims : Skims item q)
    (hrest : Solid rest) (hcs : cs.dropWhile q = (filler ++ rest).dropWhile isBlank) :
    ∃ items out, Rounds item cs items out ∧ items.filterMap id = [] ∧ out.dropWhile q = rest := by
  induction h generalizing cs with
  | nil => exact ⟨[], cs, .nil, rfl, hcs.trans (dropWhile_of_head fun c hc => (hrest c hc).1)⟩
  | blank hc _ ih => exact ih (hcs.trans (List.dropWhile_cons_of_pos hc))
  | @comment line c tail hline hc _ ih =>
    have hhash : cs.dropWhile q = '#' :: (line ++ c :: (tail ++ rest)) := by
      rw [hcs, List.cons_append, List.append_assoc, List.cons_append]
      exact List.dropWhile_cons_of_neg (by decide)
    obtain ⟨out, hitem, hless, hout⟩ := hskims cs _ hhash
    rw [dropWhile_line hline hc, List.dropWhile_cons_of_pos (isBlank_of_isLineBreak hc)] at hout
    obtain ⟨items, last, hrounds, hitems, hlast⟩ := ih hout
    exact ⟨none :: items, last, .cons hitem hless hrounds, hitems, hlast⟩

theorem Filler.skim {filler : List Char} (h : Filler filler) (hskims : Skims item q)
    (hrest : Solid rest) (hcs : StandsAt q cs (filler ++ rest)) :
    ∃ items out, Rounds item cs items out ∧ items.filterMap id = [] ∧ out.dropWhile q = rest := by
  rcases hcs with hcs | hcs
  · exact h.rounds hskims hrest hcs
  · obtain ⟨left, hleft, hsame⟩ := h.trail hrest
    exact hleft.rounds hskims hrest (hcs.trans hsame)

theorem Spread.parts {as : List α} {text : List Char} (h : Spread (ReadsFrom item q) true as text)
    (hrest : Closes rest) : Parts (text ++ rest) := by
  cases h with
  | nil hfiller =>
    have hbrace : ∀ c ∈ rest.head?, (c ≠ '(' ∧ c ≠ '{') ∧ isWordChar c = false := by
      intro c hc
      rw [hrest c hc]
      decide
    exact hfiller.parts hrest.solid (fun c hc => (hbrace c hc).1) fun _ c hc => (hbrace c hc).2
  | @cons _ filler text tail a as hfiller hapart hreads htail =>
    have htext := hreads.lettered.append (tail ++ rest)
    rw [List.append_assoc, List.append_assoc]
    exact hfiller.parts htext.solid
      (fun c hc => ⟨htext.head_ne (by decide) c hc, htext.head_ne (by decide) c hc⟩)
      fun hnil => (hapart rfl hnil).elim

/-- A loop reads a row of things, however they are spread, and stops where the text closes. -/
theorem Spread.skim {apart : Bool} {as : List α} {text : List Char}
    (h : Spread (ReadsFrom item q) apart as text) (hskims : Skims item q) (hrest : Closes rest)
    (hcs : StandsAt q cs (text ++ rest)) :
    ∃ items out, Rounds item cs items out ∧ items.filterMap id = as ∧ out.dropWhile q = rest := by
  induction h generalizing cs with
  | nil hfiller => exact hfiller.skim hskims hrest.solid hcs
  | @cons _ filler text tail a as hfiller _ hreads htail ih =>
    rw [List.append_assoc, List.append_assoc] at hcs
    obtain ⟨before, start, hbefore, hnothing, hstart⟩ :=
      hfiller.skim hskims (hreads.lettered.append (tail ++ rest)).solid hcs
    obtain ⟨next, hitem, hless, hnext⟩ := hreads.reads start (tail ++ rest) hstart (htail.parts hrest)
    obtain ⟨items, out, hrounds, hitems, hout⟩ := ih (.inr hnext)
    have hkept : (some a :: items).filterMap id = a :: items.filterMap id := rfl
    refine ⟨before ++ (some a :: items), out, hbefore.trans (.cons hitem hless hrounds), ?_, hout⟩
    rw [List.filterMap_append, hnothing, List.nil_append, hkept, hitems]

theorem Spread.imp {Written Reads : α → List Char → Prop} {apart : Bool} {as : List α}
    {text : List Char} (h : Spread Written apart as text)
    (himp : ∀ a part, part.length ≤ text.length → Written a part → Reads a part) :
    Spread Reads apart as text := by
  induction h with
  | nil hfiller => exact .nil hfiller
  | cons hfiller hapart hwritten _ ih =>
    simp only [List.length_append] at himp
    exact .cons hfiller hapart (himp _ _ (by omega) hwritten)
      (ih fun a part hpart => himp a part (by omega))

end Spread

section Nodes

variable {child : Parser SourceNode} {cs rest : List Char}

def childItem (child : Parser SourceNode) : Parser (Option SourceNode) :=
  between spaces (commentOr comment child) (do let _ ← many lineBreaks)

theorem childItem_of_eq {item : Option SourceNode} {next : List Char}
    (h : commentOr comment child (cs.dropWhile isSpace) = some (item, next)) :
    ∃ out, childItem child cs = some (item, out) ∧ out.length ≤ next.length ∧
      out.dropWhile isSpace = next.dropWhile isBlank := by
  obtain ⟨units, out, hbreaks, htrims, hout⟩ := many_lineBreaks next
  refine ⟨out, ?_, htrims.length_le, hout⟩
  rw [childItem, between, bind_of_eq (spaces_eq cs), bind_of_eq h, bind_of_eq (bind_of_eq hbreaks _)]
  rfl

theorem skims_childItem (child : Parser SourceNode) : Skims (childItem child) isSpace := by
  intro cs line hline
  have hcomment := comment_cons ((List.dropWhile_idempotent isSpace cs).trans hline)
  obtain ⟨out, hitem, hlength, hout⟩ := childItem_of_eq (commentOr_of_comment hcomment)
  exact ⟨out, hitem, length_lt_of_dropWhile (show _ = ['#'] ++ line from hline) Nat.one_pos
    (hlength.trans (List.length_dropWhile_le _ _)), hout⟩

theorem readsFrom_childItem {node : SourceNode} {text : List Char} (htext : Lettered text)
    (hreads : ∀ cs rest, cs.dropWhile isSpace = text ++ rest → Parts rest →
      child cs = some (node, trail rest)) : ReadsFrom (childItem child) isSpace node text where
  lettered := htext
  reads cs rest hcs hrest := by
    have hself := (List.dropWhile_idempotent isSpace cs).trans hcs
    have hcomment : comment (cs.dropWhile isSpace) = none :=
      comment_of_head (by rw [hself]; exact (htext.append rest).head_ne (by decide))
    obtain ⟨out, hitem, hlength, hout⟩ :=
      childItem_of_eq (commentOr_of_eq hcomment (hreads _ rest hself hrest))
    exact ⟨out, hitem,
      length_lt_of_dropWhile hcs htext.length_pos (hlength.trans (length_trail_le rest)), hout⟩

theorem childItem_of_head (hstop : ∀ cs, (∀ c ∈ (cs.dropWhile isSpace).head?, isLetter c = false) →
      child cs = none) (h : ∀ c ∈ (cs.dropWhile isSpace).head?, isLetter c = false ∧ c ≠ '#') :
    childItem child cs = none := by
  rw [← List.dropWhile_idempotent isSpace cs] at h
  have hnone := commentOr_of_none (comment_of_head fun c hc => (h c hc).2)
    (hstop _ fun c hc => (h c hc).1)
  rw [childItem, between, bind_of_eq (spaces_eq cs), bind_of_none hnone]

theorem lettered_node {node : SourceNode} {text : List Char} (h : node.Written text) :
    Lettered text := by
  cases h with
  | mk htype _ _ => exact htype.lettered.append _

theorem childList_read {nodes : List SourceNode} {text : List Char}
    (h : SourceNode.BlockWritten nodes text)
    (hreads : ∀ node part, part.length < text.length → node.Written part →
      ReadsFrom (childItem child) isSpace node part)
    (hstop : ∀ cs, (∀ c ∈ (cs.dropWhile isSpace).head?, isLetter c = false) → child cs = none)
    (hrest : ∀ c ∈ (rest.dropWhile isSpace).head?, c ≠ '{') :
    ∃ read, optional (childList child) ((text ++ rest).dropWhile isSpace) =
      some (read, rest.dropWhile isSpace) ∧ read.getD [] = nodes := by
  cases h with
  | none =>
    have hbrace : spaced (char '{') (rest.dropWhile isSpace) = none :=
      spaced_of_none (char_of_head (by rwa [List.dropWhile_idempotent]))
    exact ⟨none, optional_of_none (bind_of_none (bind_of_none hbrace _) _), rfl⟩
  | @braces _ before inner hbefore hspread =>
    have hopen : ((before ++ ('{' :: (inner ++ ['}']))) ++ rest).dropWhile isSpace =
        '{' :: (inner ++ ('}' :: rest)) := by
      simp only [List.append_assoc, List.cons_append, List.nil_append]
      exact hbefore.skip (head_cons (by decide) _)
    have hreadable : Spread (ReadsFrom (childItem child) isSpace) false nodes inner := by
      refine hspread.imp fun node part hpart hwritten => hreads node part ?_ hwritten
      simp only [List.length_append, List.length_cons]
      omega
    obtain ⟨units, start, hbreaks, -, hstart⟩ :=
      many_lineBreaks ((inner ++ ('}' :: rest)).dropWhile isSpace)
    rw [dropWhile_isBlank_dropWhile fun _ => isBlank_of_isSpace] at hstart
    have hclose : Closes ('}' :: rest) := by simp [Closes]
    obtain ⟨items, out, hrounds, hitems, hout⟩ :=
      hreadable.skim (skims_childItem child) hclose (.inl hstart)
    have hmany := hrounds.many (childItem_of_head hstop (by rw [hout]; exact head_cons (by decide) rest))
    have hchildren : children child ((inner ++ ('}' :: rest)).dropWhile isSpace) =
        some (items.filterMap id, out) :=
      (bind_of_eq hbreaks _).trans (bind_of_eq hmany _)
    refine ⟨some (items.filterMap id), optional_of_eq ?_, hitems⟩
    rw [hopen, childList, between,
      bind_of_eq (bind_of_eq (spaced_char (List.dropWhile_cons_of_neg (by decide))) _),
      bind_of_eq hchildren, bind_of_eq (bind_of_eq (spaced_char hout) _)]
    rfl

theorem head_argList {args : List Arg} {text : List Char} (h : Arg.ListWritten args text)
    (hrest : ∀ c ∈ rest.head?, isWordChar c = false) :
    ∀ c ∈ (text ++ rest).head?, isWordChar c = false := by
  cases h with
  | none => exact hrest
  | parens hbefore _ _ _ =>
    rw [List.append_assoc]
    exact head_bracket hbefore (by decide) _

theorem head_block {nodes : List SourceNode} {text : List Char}
    (h : SourceNode.BlockWritten nodes text) (hrest : Parts rest) :
    (∀ c ∈ (text ++ rest).head?, isWordChar c = false) ∧
      ∀ c ∈ ((text ++ rest).dropWhile isSpace).head?, c ≠ '(' := by
  cases h with
  | none => exact ⟨hrest.ends, fun c hc => (hrest.bare c hc).1⟩
  | braces hbefore _ =>
    rw [List.append_assoc, List.cons_append]
    refine ⟨head_bracket hbefore (by decide) _, ?_⟩
    rw [hbefore.skip (head_cons (by decide) _)]
    exact head_cons (by decide) _

theorem nodeUpTo_of_head (depth : Nat)
    (h : ∀ c ∈ (cs.dropWhile isSpace).head?, isLetter c = false) : nodeUpTo depth cs = none := by
  cases depth with
  | zero => rfl
  | succ depth => exact bind_of_none (spaced_of_none (identifier_of_head h)) _

/-- A node is read up to the end of a comment that follows it. -/
theorem nodeUpTo_read {depth : Nat} {node : SourceNode} {text : List Char} (h : node.Written text)
    (hdepth : text.length < depth) (hcs : cs.dropWhile isSpace = text ++ rest) (hrest : Parts rest) :
    nodeUpTo depth cs = some (node, trail rest) := by
  -- The texts of the children are shorter than the node's, so the bound on the depth covers them.
  induction depth generalizing node text cs rest with
  | zero => omega
  | succ depth ih =>
    obtain @⟨type, args, children, argText, childText, htype, hargs, hchildren⟩ := h
    rw [List.append_assoc, List.append_assoc] at hcs
    have hpos := htype.lettered.length_pos
    simp only [List.length_append] at hdepth
    have hreads : ∀ node part, part.length < childText.length → node.Written part →
        ReadsFrom (childItem (nodeUpTo depth)) isSpace node part := fun node part hpart hnode =>
      readsFrom_childItem (lettered_node hnode) fun cs rest hcs hrest => ih hnode (by omega) hcs hrest
    obtain ⟨hends, hbare⟩ := head_block hchildren hrest
    obtain ⟨readArgs, hreadArgs, rfl⟩ := argList_read hargs hbare
    obtain ⟨readChildren, hreadChildren, rfl⟩ :=
      childList_read hchildren hreads (fun _ => nodeUpTo_of_head depth) fun c hc => (hrest.bare c hc).2
    obtain ⟨readComment, hcomment⟩ := optional_comment rest
    rw [nodeUpTo, bind_of_eq (spaced_identifier htype hcs (head_argList hargs hends)),
      bind_of_eq hreadArgs, bind_of_eq hreadChildren, bind_of_eq hcomment]
    rfl

theorem node_read {node : SourceNode} {text : List Char} (h : node.Written text)
    (hcs : cs.dropWhile isSpace = text ++ rest) (hrest : Parts rest) :
    Source.node cs = some (node, trail rest) := by
  have hle := cs.length_dropWhile_le isSpace
  rw [hcs, List.length_append] at hle
  exact nodeUpTo_read h (by omega) hcs hrest

end Nodes

section Definitions

variable {cs rest : List Char}

def definitionItem : Parser (Option Definition) := commentOr commentBlock definition

theorem commentBlock_cons {line : List Char} (h : cs.dropWhile isBlank = '#' :: line) :
    commentBlock cs =
      some ((), (line.dropWhile fun c => !isLineBreak c).dropWhile isBlank) := by
  have hcomment := comment_cons ((dropWhile_isSpace_dropWhile_isBlank cs).trans h)
  rw [commentBlock, between, bind_of_eq (blanks_eq cs), bind_of_eq hcomment, bind_of_eq (blanks_eq _)]
  rfl

theorem commentBlock_of_head (h : ∀ c ∈ (cs.dropWhile isBlank).head?, c ≠ '#') :
    commentBlock cs = none := by
  have hcomment : comment (cs.dropWhile isBlank) = none :=
    comment_of_head (by rwa [dropWhile_isSpace_dropWhile_isBlank])
  rw [commentBlock, between, bind_of_eq (blanks_eq cs), bind_of_none hcomment]

theorem skims_definitionItem : Skims definitionItem isBlank := by
  intro cs line hline
  refine ⟨_, commentOr_of_comment (commentBlock_cons hline), ?_, List.dropWhile_idempotent _ _⟩
  exact length_lt_of_dropWhile (show _ = ['#'] ++ line from hline) Nat.one_pos
    ((List.length_dropWhile_le _ _).trans (List.length_dropWhile_le _ _))

theorem lettered_definition {definition : Definition} {text : List Char}
    (h : definition.Written text) : Lettered text := by
  cases h with
  | mk _ _ _ _ _ =>
    have htree : Lettered "tree".toList := ⟨_, _, rfl, by decide⟩
    exact htree.append _

theorem definition_read {definition : Definition} {text : List Char} (h : definition.Written text)
    (hcs : cs.dropWhile isBlank = text ++ rest) (hrest : Parts rest) :
    Source.definition cs = some (definition, trail rest) := by
  obtain @⟨name, root, afterTree, before, after, text, hname, htree, hbefore, hafter, hroot⟩ := h
  simp only [List.append_assoc, List.cons_append] at hcs
  have hstart :=
    htree.skip (hname.lettered.append (before ++ ('=' :: (after ++ (text ++ rest))))).head_isSpace
  have hequals : (before ++ ('=' :: (after ++ (text ++ rest)))).dropWhile isSpace =
      '=' :: (after ++ (text ++ rest)) :=
    hbefore.skip (head_cons (by decide) _)
  have hnode := hafter.skip ((lettered_node hroot).append rest).head_isSpace
  rw [Source.definition, bind_of_eq (blanks_eq cs), hcs, bind_of_eq (word_append "tree".toList _),
    bind_of_eq (spaces_eq _),
    bind_of_eq (spaced_identifier hname ((List.dropWhile_idempotent _ _).trans hstart)
      (head_bracket hbefore (by decide) _)),
    bind_of_eq (spaced_char ((List.dropWhile_idempotent _ _).trans hequals)),
    bind_of_eq (node_read hroot ((List.dropWhile_idempotent _ _).trans hnode) hrest)]
  rfl

theorem readsFrom_definitionItem {definition : Definition} {text : List Char}
    (h : definition.Written text) : ReadsFrom definitionItem isBlank definition text where
  lettered := lettered_definition h
  reads cs rest hcs hrest := by
    have htext := lettered_definition h
    have hcomment : commentBlock cs = none :=
      commentBlock_of_head (by rw [hcs]; exact (htext.append rest).head_ne (by decide))
    exact ⟨trail rest, commentOr_of_eq hcomment (definition_read h hcs hrest),
      length_lt_of_dropWhile hcs htext.length_pos (length_trail_le rest), rfl⟩

theorem definitionItem_of_head
    (h : ∀ c ∈ (cs.dropWhile isBlank).head?, c ≠ '#' ∧ c ≠ 't') : definitionItem cs = none := by
  have hword : word "tree".toList (cs.dropWhile isBlank) = none :=
    bind_of_none (char_of_head fun c hc => (h c hc).2) _
  have hdefinition : definition cs = none := by
    rw [definition, bind_of_eq (blanks_eq cs), bind_of_none hword]
  exact commentOr_of_none (commentBlock_of_head fun c hc => (h c hc).1) hdefinition

theorem definitionList_read {definitions : List Definition} {text : List Char}
    (h : Spread Definition.Written false definitions text) :
    definitionList text = some (definitions, []) := by
  have hreadable : Spread (ReadsFrom definitionItem isBlank) false definitions text :=
    h.imp fun _ _ _ hwritten => readsFrom_definitionItem hwritten
  have hclose : Closes [] := nofun
  have hstart : StandsAt isBlank text (text ++ []) := .inl (by rw [List.append_nil])
  obtain ⟨items, out, hrounds, hitems, hout⟩ := hreadable.skim skims_definitionItem hclose hstart
  have hmany := hrounds.many (definitionItem_of_head (by simp [hout]))
  have hread : definitionList text = some (items.filterMap id, out.dropWhile isBlank) :=
    (bind_of_eq hmany _).trans (bind_of_eq (blanks_eq out) _)
  rw [hread, hitems, hout]

end Definitions

/-- However a source is laid out, parsing its text gives it back. -/
theorem parse_written {source : Source} {text : String} (h : source.Written text.toList) :
    parse text = .ok source := by
  refine parse_of_readFront ?_
  rw [readFront, definitionList_read h]

def watchText : String :=
  "tree main = Guard (every <- 5,\n\tnote<-\"ok\") \x7bwalk# on\n rest \x7b \x7d\x7d\ntree rest=Wait"

def watch : Source where
  definitions := [
    ⟨"main", .mk "Guard" [⟨"every", .bare "5"⟩, ⟨"note", .literal "ok"⟩]
      [.mk "walk" [] [], .mk "rest" [] []]⟩,
    ⟨"rest", .mk "Wait" [] []⟩]

theorem watch_written : watch.Written watchText.toList := by
  have hevery : Arg.Written ⟨"every", .bare "5"⟩ _ :=
    @Arg.Written.mk _ _ [' '] [' '] _ ⟨_, _, rfl, rfl, List.all_eq_true.mp rfl⟩ (by decide) (by decide)
      (.bare (by decide) (by simp))
  have hnote : Arg.Written ⟨"note", .literal "ok"⟩ _ :=
    @Arg.Written.mk _ _ [] [] _ ⟨_, _, rfl, rfl, List.all_eq_true.mp rfl⟩ (by decide) (by decide)
      (.literal (by simp))
  have hargs : Arg.ListWritten [⟨"every", .bare "5"⟩, ⟨"note", .literal "ok"⟩] _ :=
    @Arg.ListWritten.parens _ [' '] [] _ [] (by decide) (by decide)
      (@Arg.RowWritten.cons _ _ _ [] ['\n', '\t'] _ hevery (by decide) (by decide) (.last hnote))
      (by decide)
  have hwalk : SourceNode.Written (.mk "walk" [] []) _ :=
    .mk ⟨_, _, rfl, rfl, List.all_eq_true.mp rfl⟩ .none .none
  have hrest : SourceNode.Written (.mk "rest" [] []) _ :=
    .mk ⟨_, _, rfl, rfl, List.all_eq_true.mp rfl⟩ .none
      (@SourceNode.BlockWritten.braces _ [' '] [' '] (by decide) (.nil (Blanks.filler (by decide))))
  have hon : Filler ['#', ' ', 'o', 'n', '\n', ' '] :=
    @Filler.comment [' ', 'o', 'n'] '\n' [' '] (by simp [isLineBreak]) rfl (Blanks.filler (by decide))
  have hguard : SourceNode.Written (.mk "Guard" _ [.mk "walk" [] [], .mk "rest" [] []]) _ :=
    .mk ⟨_, _, rfl, rfl, List.all_eq_true.mp rfl⟩ hargs
      (@SourceNode.BlockWritten.braces _ [' '] _ (by decide)
        (@Spread.cons _ _ _ _ _ _ _ _ .nil (by decide) hwalk
          (.cons hon (by decide) hrest (.nil .nil))))
  have hwait : SourceNode.Written (.mk "Wait" [] []) _ :=
    .mk ⟨_, _, rfl, rfl, List.all_eq_true.mp rfl⟩ .none .none
  have hmain : Definition.Written ⟨"main", _⟩ _ :=
    @Definition.Written.mk _ _ [' '] [' '] [' '] _ ⟨_, _, rfl, rfl, List.all_eq_true.mp rfl⟩ (by decide)
      (by decide) (by decide) hguard
  have hsecond : Definition.Written ⟨"rest", _⟩ _ :=
    @Definition.Written.mk _ _ [' '] [] [] _ ⟨_, _, rfl, rfl, List.all_eq_true.mp rfl⟩ (by decide)
      (by decide) (by decide) hwait
  exact @Spread.cons _ _ false _ _ _ _ _ .nil (by decide) hmain
    (@Spread.cons _ _ _ ['\n'] _ _ _ _ (Blanks.filler (by decide)) (by decide) hsecond (.nil .nil))

theorem watchText_parses : watch.Written watchText.toList ∧ parse watchText = .ok watch :=
  ⟨watch_written, parse_written watch_written⟩

end Source

end BehaviorTree
