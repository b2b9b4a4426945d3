import BehaviorTree.Source.Parser
import BehaviorTree.Tree.Build

namespace BehaviorTree

inductive LoadError where
  | parse (error : Source.SyntaxError)
  | missingTree (name : String)
  | missingNode (type : String)
  | missingService (node service : String)
  | missingArgument (node arg : String)
  | unknownArgument (node arg : String)
  | badArgument (node arg value : String)
  | subtreeWithChildren (node : String)
  | infiniteRecursion (node : String)
  | addChild (error : AddChildError) (node : String)
  | build (error : BuildError)
  /-- A number of seconds beyond the longest duration. It is not an answer to the text: loading breaks
  off. -/
  | overflow
  deriving Repr

namespace LoadError

open Text (quoted)

def message : LoadError → String
  | .parse error => "Parse error at line " ++ toString error.line ++ ": " ++ quoted error.snippet
  | .missingTree name => "The tree " ++ quoted name ++ " does not exist"
  | .missingNode type => "Node type or subtree name not found " ++ quoted type
  | .missingService node service =>
    "Service callback " ++ quoted service ++ " used by " ++ node ++ " is not registered"
  | .missingArgument node arg => node ++ " requires argument " ++ quoted arg
  | .unknownArgument node arg => node ++ " does not take argument " ++ quoted arg
  | .badArgument node arg value =>
    node ++ " cannot use " ++ quoted value ++ " as argument " ++ quoted arg
  | .subtreeWithChildren node => "Subtree " ++ node ++ " takes neither arguments nor children"
  | .infiniteRecursion node => "Infinite recursion detected in subtree " ++ node
  | .addChild error node => error.message ++ " to " ++ node
  | .build error => error.message
  | .overflow => "A duration is too long"

end LoadError

end BehaviorTree
