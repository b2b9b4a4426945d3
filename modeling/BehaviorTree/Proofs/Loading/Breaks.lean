import BehaviorTree.Proofs.Source.TokenAccount
import BehaviorTree.Proofs.Loading.Recursion
import BehaviorTree.Proofs.Loading.Settings

namespace BehaviorTree

variable {A : Type}

namespace Registry

section Blame

variable {registry : Registry A} {source : Source}

/-- Building the node gives the error, or looking up the definition that it refers to does. -/
def Fails (registry : Registry A) (source : Source) (error : LoadError) (node : SourceNode) : Prop :=
  (∃ trees, registry.build (.ofNode node) trees = .error error) ∨
    ∃ expanding, referred source expanding node = .error error

/-- If the result is an error, some node of the source is to blame. -/
def Blames {α : Type} (registry : Registry A) (source : Source) (result : Except LoadError α) : Prop :=
  ∀ error, result = .error error →
    ∃ name node, source.Within name node ∧ registry.Fails source error node

theorem Blames.of_error {α β : Type} {error : LoadError}
    (h : registry.Blames source (.error error : Except LoadError α)) :
    registry.Blames source (.error error : Except LoadError β) := by
  rintro _ ⟨⟩
  exact h error rfl

mutual

theorem Expands.blames {expanding : List String} {node : SourceNode}
    {result : Except LoadError (Tree A)} {name : String} (hwithin : source.Within name node) :
    registry.Expands source expanding node result → registry.Blames source result
  | .build _ _ => fun _ herror => ⟨name, node, hwithin, .inl ⟨_, herror⟩⟩
  | .fault _ hlist => (hlist.blames fun _ => hwithin.child).of_error
  | .refuse _ hrefer => by
    rintro _ ⟨⟩
    exact ⟨name, node, hwithin, .inr ⟨expanding, hrefer⟩⟩
  | .refer _ hrefer hroot => hroot.blames ⟨_, (referred_eq_ok.mp hrefer).1, .self⟩

theorem ExpandsList.blames {expanding : List String} {nodes : List SourceNode}
    {result : Except LoadError (List (Tree A))} {name : String}
    (hwithin : ∀ node ∈ nodes, source.Within name node) :
    registry.ExpandsList source expanding nodes result → registry.Blames source result
  | .nil => nofun
  | .cons _ _ => nofun
  | .first hnode => (hnode.blames (hwithin _ List.mem_cons_self)).of_error
  | .rest _ hnodes => hnodes.blames fun node hnode => hwithin node (List.mem_cons_of_mem _ hnode)

end

theorem load_blames {name : String} {definition : Definition}
    (hfind : source.find? name = some definition) :
    registry.Blames source (registry.load source name) :=
  (load_expands hfind).blames ⟨definition, hfind, .self⟩

end Blame

end Registry

namespace Arguments

variable {args : Arguments} {name : String}

/-- A number is given that is more than any duration. -/
def GivenBeyond (args : Arguments) (name : String) : Prop :=
  ∃ text, args.get? name = some text ∧ WrittenBeyond text

theorem required_eq_error {error : LoadError} (h : args.required name = .error error) :
    error = .missingArgument args.node name := by
  rw [required] at h
  cases hget : args.get? name with
  | none =>
    rw [hget] at h
    cases h
    rfl
  | some text =>
    rw [hget] at h
    cases h

theorem interpret_eq_error {α : Type} {read? : String → Option α} {text : String} {error : LoadError}
    (h : args.interpret read? name text = .error error) : error = .badArgument args.node name text := by
  rw [interpret] at h
  cases hread : read? text with
  | none =>
    rw [hread] at h
    cases h
    rfl
  | some a =>
    rw [hread] at h
    cases h

theorem readOr_ne_overflow {α : Type} {read? : String → Option α} {default : α} :
    args.readOr read? name default ≠ .error .overflow := by
  intro h
  rw [readOr] at h
  cases hget : args.get? name with
  | none =>
    rw [hget] at h
    cases h
  | some text =>
    rw [hget] at h
    cases interpret_eq_error h

theorem read_ne_overflow {α : Type} {read? : String → Option α} :
    args.read read? name ≠ .error .overflow := by
  intro h
  obtain h | ⟨text, _, h⟩ := error_of_bind h
  · cases required_eq_error h
  · cases interpret_eq_error h

theorem value_ne_overflow : args.value name ≠ .error .overflow := by
  intro h
  obtain h | ⟨text, _, h⟩ := error_of_bind h
  · cases required_eq_error h
  · cases h

theorem required_eq_ok {text : String} (h : args.required name = .ok text) :
    args.get? name = some text := by
  rw [required] at h
  cases hget : args.get? name with
  | none =>
    rw [hget] at h
    cases h
  | some other =>
    rw [hget] at h
    cases h
    rfl

theorem writtenBeyond_of_duration {text : String} (h : args.duration name text = .error .overflow) :
    WrittenBeyond text := by
  by_contra hnot
  obtain ⟨_, _, hok⟩ | hbad := (args.duration_spec name text).2 hnot
  · cases h.symm.trans hok
  · cases h.symm.trans hbad

theorem givenBeyond_of_seconds (h : args.seconds name = .error .overflow) : args.GivenBeyond name := by
  obtain h | ⟨text, hget, h⟩ := error_of_bind h
  · cases required_eq_error h
  · exact ⟨text, required_eq_ok hget, writtenBeyond_of_duration h⟩

theorem givenBeyond_of_secondsOr {default : Duration}
    (h : args.secondsOr name default = .error .overflow) : args.GivenBeyond name := by
  rw [secondsOr] at h
  cases hget : args.get? name with
  | none =>
    rw [hget] at h
    cases h
  | some text =>
    rw [hget] at h
    exact ⟨text, hget, writtenBeyond_of_duration h⟩

theorem checkAccepted_ne_overflow {accepted : List String} :
    args.checkAccepted accepted ≠ .error .overflow := by
  rw [checkAccepted]
  split <;> nofun

end Arguments

namespace Constructor

variable {args : Arguments} {children : List (Tree A)} {services : String → Option (Routine A)}

theorem noChildren_ne_overflow : noChildren args children ≠ .error .overflow := by
  rw [noChildren]
  split <;> nofun

theorem singleChild_ne_overflow : singleChild args children ≠ .error .overflow := by
  rw [singleChild.eq_def]
  split <;> nofun

theorem condition_ne_overflow : condition args children services ≠ .error .overflow := by
  intro h
  obtain h | ⟨operator, _, h⟩ := error_of_bind h
  · exact Arguments.readOr_ne_overflow h
  have hrest (threshold : Value) : (do
      let key ← args.required "key"
      let policy ← args.readOr RestartPolicy.ofKeyword? "restart" .none
      let child ← singleChild args children
      return Tree.condition ⟨key, operator, threshold⟩ policy (some child)) ≠ .error .overflow := by
    intro h
    obtain h | ⟨key, _, h⟩ := error_of_bind h
    · cases Arguments.required_eq_error h
    obtain h | ⟨policy, _, h⟩ := error_of_bind h
    · exact Arguments.readOr_ne_overflow h
    obtain h | ⟨child, _, h⟩ := error_of_bind h
    · exact singleChild_ne_overflow h
    · cases h
  dsimp only at h
  split at h
  · exact hrest _ h
  · exact hrest _ h
  · obtain h | ⟨threshold, _, h⟩ := error_of_bind h
    · exact Arguments.value_ne_overflow h
    · exact hrest threshold h

theorem service_overflow (h : service args children services = .error .overflow) :
    args.GivenBeyond "interval" := by
  obtain h | ⟨name, _, h⟩ := error_of_bind h
  · cases Arguments.required_eq_error h
  cases hcallback : services name with
  | none =>
    rw [hcallback] at h
    cases h
  | some callback =>
    rw [hcallback] at h
    obtain h | ⟨interval, _, h⟩ := error_of_bind h
    · exact Arguments.givenBeyond_of_seconds h
    obtain h | ⟨child, _, h⟩ := error_of_bind h
    · exact (singleChild_ne_overflow h).elim
    · cases h

theorem wait_of_givenBeyond (h : args.GivenBeyond "duration") :
    wait args ([] : List (Tree A)) services = .error .overflow := by
  obtain ⟨text, hget, hbeyond⟩ := h
  have hseconds : args.seconds "duration" = .error .overflow := by
    rw [Arguments.seconds, Arguments.required, hget]
    exact (args.duration_spec "duration" text).1 hbeyond
  rw [wait, hseconds]
  rfl

theorem wait_overflow (h : wait args children services = .error .overflow) :
    args.GivenBeyond "duration" ∨ args.GivenBeyond "variance" := by
  obtain h | ⟨_, _, h⟩ := error_of_bind h
  · exact (noChildren_ne_overflow h).elim
  obtain h | ⟨duration, _, h⟩ := error_of_bind h
  · exact .inl (Arguments.givenBeyond_of_seconds h)
  obtain h | ⟨variance, _, h⟩ := error_of_bind h
  · exact .inr (Arguments.givenBeyond_of_secondsOr h)
  · cases h

end Constructor

namespace Registry

def secondsArguments : List (String × String) :=
  [("Wait", "duration"), ("Wait", "variance"), ("Service", "interval")]

def HoldsBeyond (type : String) (args : Arguments) : Prop :=
  ∃ name, (type, name) ∈ secondsArguments ∧ args.GivenBeyond name

/-- No type of the registry breaks off over anything but its numbers of seconds. -/
def Sturdy (registry : Registry A) : Prop :=
  ∀ entry ∈ registry.types, ∀ args children services,
    entry.2.build args children services = .error .overflow → HoldsBeyond entry.1 args

namespace Sturdy

variable {registry : Registry A} {type : String} {accepted : List String}

theorem register (h : registry.Sturdy) {build : Constructor A}
    (hbuild : ∀ args children services,
      build args children services = .error .overflow → HoldsBeyond type args) :
    (registry.register type accepted build).Sturdy :=
  List.forall_mem_cons.mpr ⟨hbuild, h⟩

theorem registerAction (h : registry.Sturdy) {make : Arguments → Except LoadError (Command A)}
    (hmake : ∀ args, make args ≠ .error .overflow) :
    (registry.registerAction type accepted make).Sturdy := by
  refine h.register fun args children services hbreak => ?_
  obtain hbreak | ⟨_, _, hbreak⟩ := error_of_bind hbreak
  · exact (Constructor.noChildren_ne_overflow hbreak).elim
  obtain hbreak | ⟨command, _, hbreak⟩ := error_of_bind hbreak
  · exact (hmake args hbreak).elim
  · cases hbreak

theorem registerAmount (h : registry.Sturdy) {effect : Float32 → A → A} :
    (registry.registerAmount type effect).Sturdy := by
  refine h.registerAction fun args hbreak => ?_
  obtain hbreak | ⟨amount, _, hbreak⟩ := error_of_bind hbreak
  · exact Arguments.read_ne_overflow hbreak
  · cases hbreak

theorem build (h : registry.Sturdy) {args : Arguments} {trees : List (Tree A)}
    (hbreak : registry.build args trees = .error .overflow) : HoldsBeyond args.node args := by
  rw [Registry.build] at hbreak
  cases htype : registry.type? args.node with
  | none =>
    rw [htype] at hbreak
    cases hbreak
  | some type =>
    rw [htype] at hbreak
    obtain ⟨before, after, htypes, -⟩ := List.lookup_eq_some_iff.mp htype
    obtain hbreak | ⟨_, _, hbreak⟩ := error_of_bind hbreak
    · exact (Arguments.checkAccepted_ne_overflow hbreak).elim
    · refine h (args.node, type) ?_ args trees _ hbreak
      rw [htypes]
      exact List.mem_append_right _ List.mem_cons_self

end Sturdy

theorem builtIn_sturdy : (Registry.builtIn (A := A)).Sturdy := by
  have hempty : (Registry.empty (A := A)).Sturdy := by
    rintro _ ⟨⟩
  refine Sturdy.register (Sturdy.register (Sturdy.register (hempty.register ?_ |>.register ?_) ?_) ?_) ?_
  · rintro _ _ _ ⟨⟩
  · rintro _ _ _ ⟨⟩
  · exact fun _ _ _ hbreak => (Constructor.condition_ne_overflow hbreak).elim
  · exact fun _ _ _ hbreak => ⟨"interval", by decide, Constructor.service_overflow hbreak⟩
  · intro _ _ _ hbreak
    obtain hlong | hlong := Constructor.wait_overflow hbreak
    · exact ⟨"duration", by decide, hlong⟩
    · exact ⟨"variance", by decide, hlong⟩

theorem tank_sturdy [Tank A] : (Registry.tank (A := A)).Sturdy := by
  refine Sturdy.registerAction (Sturdy.registerAction
    builtIn_sturdy.registerAmount.registerAmount.registerAmount ?_) ?_
  · rintro _ ⟨⟩
  · rintro _ ⟨⟩

/-- A text is parsed, its tree of a name is loaded, and a root is made of the tree and a board. -/
def rootOf (registry : Registry A) (text name : String) (board : Board) (agent : A)
    (react : Notice → A → A) (random : Random) : Except LoadError (Root A) := do
  let source ← (Source.parse text).mapError .parse
  let tree ← registry.load source name
  (Root.withBoard tree board agent react random).mapError .build

variable {registry : Registry A} {text name : String} {board : Board} {agent : A}
  {react : Notice → A → A} {random : Random}

theorem mapError_eq_error {ε ε' α : Type} {f : ε → ε'} {x : Except ε α} {error : ε'}
    (h : x.mapError f = .error error) : ∃ inner, f inner = error := by
  cases x with
  | error inner =>
    cases h
    exact ⟨inner, rfl⟩
  | ok a => cases h

theorem mapError_eq_ok {ε ε' α : Type} {f : ε → ε'} {x : Except ε α} {a : α}
    (h : x.mapError f = .ok a) : x = .ok a := by
  cases x with
  | error inner => cases h
  | ok b =>
    cases h
    rfl

theorem referred_ne_overflow {source : Source} {expanding : List String} {node : SourceNode} :
    referred source expanding node ≠ .error .overflow := by
  rw [referred]
  split
  · nofun
  · split_ifs <;> nofun

theorem Sturdy.rootOf_overflow (h : registry.Sturdy)
    (hbreak : registry.rootOf text name board agent react random = .error .overflow) :
    ∃ source, Source.parse text = .ok source ∧ ∃ definition ∈ source.definitions,
      ∃ node : SourceNode, node.Occurs definition.root ∧
        HoldsBeyond node.type (.ofNode node) := by
  obtain hbreak | ⟨source, hparse, hbreak⟩ := error_of_bind hbreak
  · obtain ⟨_, ⟨⟩⟩ := mapError_eq_error hbreak
  obtain hbreak | ⟨tree, _, hbreak⟩ := error_of_bind hbreak
  swap
  · obtain ⟨_, ⟨⟩⟩ := mapError_eq_error hbreak
  refine ⟨source, mapError_eq_ok hparse, ?_⟩
  · cases hfind : source.find? name with
    | none =>
      rw [load, hfind] at hbreak
      cases hbreak
    | some definition =>
      obtain ⟨_, node, ⟨inner, hinner, hoccurs⟩, hfails⟩ := load_blames hfind _ hbreak
      refine ⟨inner, List.mem_of_find?_eq_some hinner, node, hoccurs, ?_⟩
      obtain ⟨trees, hbuild⟩ | ⟨expanding, hrefer⟩ := hfails
      · exact h.build hbuild
      · exact (referred_ne_overflow hrefer).elim

theorem readFront_suffix (cs : List Char) : (Source.readFront cs).2 <:+ cs := by
  rw [Source.readFront]
  cases hread : Source.definitionList cs with
  | none => exact List.suffix_refl cs
  | some read => exact (Source.reads_definitionList cs read.1 read.2 hread).1

/-- Loading ends in a root or in an error, and breaks off only over a number of seconds that is more than
any duration. So does reading the text of a duration, a number of seconds in a configuration, or all
numbers of the recipes. What is left where parsing stops is an end of the text. -/
theorem loading_breaks_off [Tank A] :
    (∀ (text name : String) (board : Board) (agent : A) (react : Notice → A → A) (random : Random),
      Registry.tank.rootOf text name board agent react random = .error .overflow →
        ∃ source, Source.parse text = .ok source ∧ ∃ definition ∈ source.definitions,
          ∃ node : SourceNode, node.Occurs definition.root ∧
            HoldsBeyond node.type (.ofNode node)) ∧
      (∀ (args : Arguments) (name text : String),
        (WrittenBeyond text → args.duration name text = .error .overflow) ∧
          (¬WrittenBeyond text →
            (∃ duration, duration ≤ Duration.longest ∧ args.duration name text = .ok duration) ∨
              args.duration name text = .error (.badArgument args.node name text))) ∧
      (∀ node : Yaml.Node,
        (Config.NumberBeyond node → Config.readSeconds node = .error .overflow) ∧
          (¬Config.NumberBeyond node →
            (∃ duration, duration ≤ Duration.longest ∧ Config.readSeconds node = .ok duration) ∨
              Config.readSeconds node = .error .malformed)) ∧
      (∀ (document : Yaml.Node) (defaults : RecipeParams),
        Config.readRecord Config.paramFields defaults document = .error .overflow →
          ∃ field value, Config.Gives Config.paramFields field value document ∧
            field.name ∈ Config.secondsFields ∧ Config.NumberBeyond value) ∧
      ∀ cs, (Source.readFront cs).2 <:+ cs :=
  ⟨fun _ _ _ _ _ _ => tank_sturdy.rootOf_overflow, Arguments.duration_spec, Config.readSeconds_spec,
    fun _ _ => Config.readParams_overflow, readFront_suffix⟩

@[reducible] def blindTank : Tank Unit where
  moveBy _ agent := agent
  turn _ agent := agent
  fire _ agent := agent
  target? _ := none

def longWait : SourceNode := .mk "Wait" [⟨"duration", .bare "1e30"⟩] []

def longWaitText : String := "tree main = Wait (duration <- 1e30)"

theorem parse_longWaitText : Source.parse longWaitText = .ok ⟨[⟨"main", longWait⟩]⟩ :=
  Source.parse_of_readFront (by decide +kernel)

theorem longWait_writtenBeyond : WrittenBeyond "1e30" := by
  have hnumber : Decimal.readNumber? "1e30".toList = some (.finite ⟨false, 1, 30⟩) := by
    decide +kernel
  refine ⟨_, by rw [Decimal.readFloat?, hnumber]; rfl, ?_⟩
  rw [← Duration.ofFloatSeconds_eq_tooLong]
  decide +kernel

theorem load_single {type : String} {args : List Arg} (hown : registry.contains type = true) :
    registry.load ⟨[⟨name, .mk type args []⟩]⟩ name = registry.build (.ofNode (.mk type args [])) [] := by
  have hfind : Source.find? ⟨[⟨name, .mk type args []⟩]⟩ name = some ⟨name, .mk type args []⟩ := by
    simp [Source.find?]
  rw [load, hfind]
  simp only [List.length_singleton, expand, assemble, hown, if_true, assembleList]
  rfl

theorem longWait_breaks_off :
    (@Registry.tank Unit blindTank).rootOf longWaitText "main" {} () (fun _ _ => ()) (.ofSeed 0) =
      .error .overflow := by
  have htype : (@Registry.tank Unit blindTank).type? "Wait" =
      some ⟨["duration", "variance"], Constructor.wait⟩ := rfl
  have hbuild : (@Registry.tank Unit blindTank).build (.ofNode longWait) [] = .error .overflow := by
    have haccepted : (Arguments.ofNode longWait).checkAccepted ["duration", "variance"] = .ok () := rfl
    rw [build, show (Arguments.ofNode longWait).node = "Wait" from rfl, htype]
    dsimp only [bind, Except.bind]
    rw [haccepted]
    exact Constructor.wait_of_givenBeyond ⟨"1e30", rfl, longWait_writtenBeyond⟩
  rw [rootOf, parse_longWaitText]
  dsimp only [Except.mapError, bind, Except.bind]
  rw [longWait, load_single (by rw [contains, htype]; rfl), ← longWait, hbuild]

theorem longWait_at_fault : ∃ source, Source.parse longWaitText = .ok source ∧
    ∃ definition ∈ source.definitions, ∃ node : SourceNode, node.Occurs definition.root ∧
      HoldsBeyond node.type (.ofNode node) :=
  (@loading_breaks_off Unit blindTank).1 _ _ _ _ _ _ longWait_breaks_off

end Registry

end BehaviorTree
