import BehaviorTree.Source.Parser

/-!
    source      definitions with filler before, between and after them
    definition  "tree" name "=" node
    node        type ["(" arg ("," arg)* ")"] ["{" nodes with filler before, between and after them "}"]
    arg         name "<-" value

Spaces may stand between any two tokens, and line breaks around the commas and parentheses too. Filler is
made of blanks and comments, and where it parts two definitions or two nodes there is some.
-/

namespace BehaviorTree

namespace Source

def Spaces (cs : List Char) : Prop := ∀ c ∈ cs, isSpace c = true

def Blanks (cs : List Char) : Prop := ∀ c ∈ cs, isBlank c = true

instance (cs : List Char) : Decidable (Spaces cs) :=
  List.decidableBAll (fun c => isSpace c = true) cs

instance (cs : List Char) : Decidable (Blanks cs) :=
  List.decidableBAll (fun c => isBlank c = true) cs

/-- A letter with letters, digits and underscores after it. -/
def Identifier (name : String) : Prop :=
  ∃ c cs, name.toList = c :: cs ∧ isLetter c = true ∧ ∀ d ∈ cs, isWordChar d = true

/-- Blanks, and comments up to the ends of their lines. -/
inductive Filler : List Char → Prop where
  | nil : Filler []
  | blank {c : Char} {cs : List Char} : isBlank c = true → Filler cs → Filler (c :: cs)
  | comment {line : List Char} {c : Char} {cs : List Char} :
    (∀ d ∈ line, isLineBreak d = false) → isLineBreak c = true → Filler cs →
    Filler ('#' :: (line ++ c :: cs))

theorem Blanks.filler {cs : List Char} (h : Blanks cs) : Filler cs := by
  induction cs with
  | nil => exact .nil
  | cons c cs ih =>
    exact .blank (h c List.mem_cons_self) (ih fun d hd => h d (List.mem_cons_of_mem c hd))

/-- Texts of a row of things, with filler before, between and after them. Where they are to stand apart
from what is before them, the filler there is not empty. -/
inductive Spread {α : Type} (Written : α → List Char → Prop) :
    (apart : Bool) → List α → List Char → Prop where
  | nil {apart : Bool} {filler : List Char} : Filler filler → Spread Written apart [] filler
  | cons {apart : Bool} {filler text rest : List Char} {a : α} {as : List α} :
    Filler filler → (apart = true → filler ≠ []) → Written a text → Spread Written true as rest →
    Spread Written apart (a :: as) (filler ++ (text ++ rest))

end Source

open Source

inductive ArgValue.Written : ArgValue → List Char → Prop where
  | literal {text : String} : (∀ c ∈ text.toList, c ≠ '"' ∧ c ≠ '\\') →
    Written (.literal text) ('"' :: (text.toList ++ ['"']))
  | bare {text : String} : text ≠ "" →
    (∀ c ∈ text.toList, c ∉ [' ', '\t', '\r', '\n', ',', '(', ')', '{', '}', '"', '#']) →
    Written (.bare text) text.toList

inductive Arg.Written : Arg → List Char → Prop where
  | mk {name : String} {value : ArgValue} {before after text : List Char} : Identifier name →
    Spaces before → Spaces after → value.Written text →
    Written ⟨name, value⟩ (name.toList ++ (before ++ ('<' :: '-' :: (after ++ text))))

/-- One argument or more, with a comma after each but the last. -/
inductive Arg.RowWritten : List Arg → List Char → Prop where
  | last {arg : Arg} {text : List Char} : arg.Written text → RowWritten [arg] text
  | cons {arg : Arg} {args : List Arg} {text before after rest : List Char} : arg.Written text →
    Blanks before → Blanks after → RowWritten args rest →
    RowWritten (arg :: args) (text ++ (before ++ (',' :: (after ++ rest))))

/-- Arguments stand in parentheses, which are left out where there are no arguments. -/
inductive Arg.ListWritten : List Arg → List Char → Prop where
  | none : ListWritten [] []
  | parens {args : List Arg} {before first text last : List Char} : Spaces before → Blanks first →
    RowWritten args text → Blanks last →
    ListWritten args (before ++ ('(' :: (first ++ (text ++ (last ++ [')'])))))

mutual

inductive SourceNode.Written : SourceNode → List Char → Prop where
  | mk {type : String} {args : List Arg} {children : List SourceNode} {argText childText : List Char} :
    Identifier type → Arg.ListWritten args argText → SourceNode.BlockWritten children childText →
    SourceNode.Written (.mk type args children) (type.toList ++ (argText ++ childText))

/-- Children stand in braces, which may be left out where there are no children. -/
inductive SourceNode.BlockWritten : List SourceNode → List Char → Prop where
  | none : SourceNode.BlockWritten [] []
  | braces {children : List SourceNode} {before text : List Char} : Spaces before →
    Spread SourceNode.Written false children text →
    SourceNode.BlockWritten children (before ++ ('{' :: (text ++ ['}'])))

end

inductive Definition.Written : Definition → List Char → Prop where
  | mk {name : String} {root : SourceNode} {afterTree before after text : List Char} :
    Identifier name → Spaces afterTree → Spaces before → Spaces after → root.Written text →
    Written ⟨name, root⟩
      ("tree".toList ++ (afterTree ++ (name.toList ++ (before ++ ('=' :: (after ++ text))))))

def Source.Written (source : Source) (cs : List Char) : Prop :=
  Spread Definition.Written false source.definitions cs

end BehaviorTree
