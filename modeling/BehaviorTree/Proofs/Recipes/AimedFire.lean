import BehaviorTree.Proofs.Recipes.AimingTick
import Mathlib.Data.List.Induction

namespace BehaviorTree

variable {A : Type}

/-- Whether the call leaves the orders of the agent, and the observers on the board, alone. -/
def Call.Fair : Call (Recorded A) → Prop
  | .steer f => ∀ tank, (f tank).orders = tank.orders
  | .clear | .watch _ _ | .unwatch _ => False
  | _ => True

namespace Root

def ticking? (root : Root A) : Call A → Option (Root A)
  | .tick => if root.active then some root else none
  | .update dt => if root.active then some (root.advance dt) else none
  | _ => none

def orders (root : Root (Recorded A)) : List Order := root.world.agent.orders

theorem tick_eq_self {root : Root A} (hrest : root.active ≠ true) : root.tick = root := by
  rw [tick, if_pos (by simpa using hrest)]

theorem ticking?_eq_some {root ticked : Root A} {call : Call A} (h : root.ticking? call = some ticked) :
    root.call call = ticked.tick ∧ ticked.active = true ∧
      (ticked = root ∨ ∃ dt, ticked = root.advance dt) := by
  cases call with
  | tick =>
    obtain ⟨hactive, heq⟩ := Option.ite_none_right_eq_some.mp h
    cases heq
    exact ⟨rfl, hactive, .inl rfl⟩
  | update dt =>
    obtain ⟨hactive, heq⟩ := Option.ite_none_right_eq_some.mp h
    cases heq
    exact ⟨rfl, hactive, .inr ⟨dt, rfl⟩⟩
  | _ => cases h

theorem ne_stop_of_ticking {root ticked : Root A} {call : Call A}
    (h : root.ticking? call = some ticked) : call ≠ .stop := by
  rintro rfl
  cases h

theorem calls_append (root : Root A) (calls : List (Call A)) (call : Call A) :
    root.calls (calls ++ [call]) = (root.calls calls).call call := by
  rw [Root.calls, List.foldl_append]
  rfl

end Root

namespace Vigil

variable [Tank A] {vigil : Vigil (Recorded A)} {volley : List Order → Prop} {since : Duration}
variable {first : List Order} {label : String} {interval : Duration}
variable {others : List (Tree (Recorded A))} {root : Root (Recorded A)}

section Stages

variable (vigil) (label) (interval) (others)

/-- The root does not aim: it does not run, its tree has ended, or the tree has not entered the branch. -/
def Idle (root : Root (Recorded A)) : Prop :=
  root.active = false ∨ root.status.isTerminated = true ∨
    ∃ state, root.node = ⟨vigil.tree label interval others, state⟩ ∧
      vigil.Posted vigil.branch.Quiet state

/-- The root aims since a time. -/
def Awaits (since : Duration) (root : Root (Recorded A)) : Prop :=
  root.active = true ∧ ∃ state, root.node = ⟨vigil.tree label interval others, state⟩ ∧
    vigil.Posted (vigil.Aiming since) state

/-- What comes of a tick of the root whose pause goes on since a time. -/
inductive Ticks (volley : List Order → Prop) (since : Duration) (first : List Order)
    (root : Root (Recorded A)) : Root (Recorded A) → Prop where
  | strays {after : Root (Recorded A)} {amount : Float32} :
    vigil.Idle label interval others after → root.world.Issues after.world [.turn amount] →
    Ticks volley since first root after
  | waits {after : Root (Recorded A)} :
    vigil.Aims root.visits → vigil.Awaits label interval others since after →
    root.world.Issues after.world first → Ticks volley since first root after
  | acts {after : Root (Recorded A)} {orders : List Order} :
    vigil.Aims root.visits → vigil.Idle label interval others after → volley orders →
    since + vigil.pause ≤ root.world.now → root.world.Issues after.world (orders ++ first) →
    Ticks volley since first root after

end Stages

theorem status_tick (state : (vigil.tree label interval others).State) (world : World (Recorded A)) :
    (vigil.tree label interval others).status ((vigil.tree label interval others).tick state world).2.1 =
      ((vigil.tree label interval others).tick state world).1.status := by
  rcases hstart : (vigil.tree label interval others).start state world with ⟨started, begun⟩
  rw [Tree.tick_service _ _ _ _ state world hstart]
  cases houtcome : started.status.outcome? with
  | some outcome => exact (Status.eq_of_outcome? houtcome).1
  | none => rfl

theorem Goes.ticks {outcome : Outcome} {ticked : (vigil.tree label interval others).State}
    {world after : World (Recorded A)} {initial : Values} (hready : root.world.Issues world [])
    (haims : vigil.Aims root.visits)
    (hended : outcome = .success →
      ((vigil.tree label interval others).status ticked).isTerminated = true)
    (h : vigil.Goes volley since first (vigil.Posted (vigil.Aiming since)) world
      (outcome, ticked, after)) :
    vigil.Ticks label interval others volley since first root
      ⟨vigil.tree label interval others, ticked, after, initial, true⟩ := by
  cases h with
  | waits hwaiting _ hissues =>
    exact .waits haims ⟨rfl, ticked, rfl, hwaiting⟩ (hready.after_none hissues)
  | acts hvolley hpassed hissues =>
    rw [hready.now_eq] at hpassed
    exact .acts haims (.inr (.inl (hended rfl))) hvolley hpassed (hready.after_none hissues)

theorem Tracks.ticks {state : (vigil.tree label interval others).State} {world : World (Recorded A)}
    {initial : Values} (hactive : root.active = true)
    (hready : root.readied = ⟨vigil.tree label interval others, state, world, initial, true⟩)
    (hissues : root.world.Issues world [])
    (h : vigil.Tracks volley since first state world) :
    vigil.Ticks label interval others volley since first root root.tick := by
  have hended : ((vigil.tree label interval others).tick state world).1 = .success →
      ((vigil.tree label interval others).status
        ((vigil.tree label interval others).tick state world).2.1).isTerminated = true := by
    intro hsuccess
    rw [status_tick, hsuccess]
    rfl
  have hvisits : root.visits = (vigil.tree label interval others).visits state world := by
    rw [Root.visits, if_pos hactive, hready]
  rw [show root.tick = root.readied.evaluated from root.tick_eq hactive, hready]
  obtain ⟨hsuccess, amount, hturned⟩ | ⟨haims, hgoes⟩ := h
  · exact .strays (.inr (.inl (hended hsuccess))) (hissues.after_none hturned)
  · rw [← hvisits] at haims
    exact hgoes.ticks hissues haims hended

variable {initial : Values} {call : Call (Recorded A)}

/-- The tree does what its branch promises. -/
structure Works (vigil : Vigil (Recorded A)) (volley : List Order → Prop) (label : String)
    (interval : Duration) (others : List (Tree (Recorded A))) : Prop where
  acts : Tree.GivesAll vigil.acts volley
  turns : Turns others
  passive : (vigil.tree label interval others).Passive

def Driven (vigil : Vigil (Recorded A)) (label : String) (interval : Duration)
    (others : List (Tree (Recorded A))) (initial : Values) (root : Root (Recorded A)) : Prop :=
  Session.Undisturbed (vigil.tree label interval others) initial ⟨root, []⟩

theorem Works.builtIn (h : vigil.Works volley label interval others) :
    (vigil.tree label interval others).BuiltIn := ⟨builtIn_steps h.acts, h.turns.builtIn⟩

theorem Driven.called (h : vigil.Driven label interval others initial root) (hfair : call.Fair) :
    vigil.Driven label interval others initial (root.call call) := by
  have hcalled (hspares : call.Spares []) :
      Session.Undisturbed (vigil.tree label interval others) initial (Session.call ⟨root, []⟩ call) :=
    .called call hspares h
  cases call with
  | clear | watch _ _ | unwatch _ => exact hfair.elim
  | _ => exact hcalled trivial

theorem Driven.kept (h : vigil.Driven label interval others initial root)
    (hworks : vigil.Works volley label interval others) : Session.Kept ⟨root, []⟩ :=
  (Session.Undisturbed.reachable h).kept hworks.builtIn

theorem Driven.silent (h : vigil.Driven label interval others initial root)
    (hworks : vigil.Works volley label interval others) : root.world.Silent :=
  fun notice agent => (h.kept hworks).silent notice agent List.not_mem_nil

theorem Driven.tree_eq (h : vigil.Driven label interval others initial root) :
    root.tree = vigil.tree label interval others :=
  (Session.Undisturbed.reachable h).tree_eq

theorem Idle.poised (hidle : vigil.Idle label interval others root)
    (h : vigil.Driven label interval others initial root)
    (hworks : vigil.Works volley label interval others) (hactive : root.active = true) :
    ∃ state world values, root.readied =
        ⟨vigil.tree label interval others, state, world, values, true⟩ ∧
      root.world.Issues world [] ∧ vigil.Poised state := by
  have hfit := (h.kept hworks).fit
  have htree := h.tree_eq
  rcases root with ⟨tree, state, world, values, active⟩
  obtain rfl : tree = vigil.tree label interval others := htree
  obtain rfl : active = true := hactive
  obtain hrest | hended | ⟨posted, hnode, hposted⟩ := hidle
  · cases hrest
  · have hissues := Tree.release_issues (vigil.tree label interval others) state world hworks.builtIn
    have hquiet := (Tree.release_quiet (vigil.tree label interval others) state world hfit).1
    rw [Root.readied, if_pos hended]
    exact ⟨_, _, values, rfl, hissues, .inl hquiet⟩
  · obtain rfl : state = posted := eq_of_heq (Subtree.mk.inj hnode).2
    refine ⟨state, world, values, if_neg ?_, .refl world, .inr hposted⟩
    obtain ⟨timer, branch, rest, rfl, -, -⟩ := hposted
    simp [Root.status, Tree.status, Status.isTerminated]

theorem Idle.ticks (hidle : vigil.Idle label interval others root)
    (h : vigil.Driven label interval others initial root)
    (hworks : vigil.Works volley label interval others) (hactive : root.active = true) :
    vigil.Enters root.visits ∧
      vigil.Ticks label interval others volley root.world.now [.turn 0] root
        root.tick := by
  obtain ⟨state, world, values, hready, hissues, hpoised⟩ := hidle.poised h hworks hactive
  obtain ⟨henters, htracks⟩ :=
    hpoised.tracks hworks.acts hworks.turns (hissues.silent (h.silent hworks))
  rw [hissues.now_eq] at htracks
  refine ⟨?_, htracks.ticks hactive hready hissues⟩
  rw [Root.visits, if_pos hactive, hready]
  exact henters

theorem Awaits.ticks (hawaits : vigil.Awaits label interval others since root)
    (h : vigil.Driven label interval others initial root)
    (hworks : vigil.Works volley label interval others) :
    vigil.Ticks label interval others volley since [] root root.tick := by
  have hwatchful := Session.Undisturbed.obeys Keeper.lasts_watchful hworks.builtIn h
  obtain ⟨hactive, state, hnode, hposted⟩ := hawaits
  rcases root with ⟨tree, below, world, values, active⟩
  cases hnode
  obtain rfl : active = true := hactive
  have htracks := tracks_aiming hposted hworks.acts hworks.turns hwatchful
  refine htracks.ticks rfl (if_neg ?_) (.refl world)
  obtain ⟨timer, branch, rest, rfl, -, -⟩ := hposted
  simp [Root.status, Tree.status, Status.isTerminated]

theorem Driven.orders_advance (h : vigil.Driven label interval others initial root)
    (hworks : vigil.Works volley label interval others) (dt : Duration) :
    (root.advance dt).orders = root.orders := by
  have hpassive := hworks.passive
  rw [← h.tree_eq] at hpassive
  exact World.advance_orders (fun id world hsilent => Tree.fire_issues _ _ id world hpassive hsilent)
    (h.silent hworks) dt

theorem Driven.orders_stop (h : vigil.Driven label interval others initial root)
    (hworks : vigil.Works volley label interval others) (hactive : root.active = true) :
    root.stop.orders = root.orders := by
  have hbuilt := hworks.builtIn
  rw [← h.tree_eq] at hbuilt
  have hreleased := Tree.release_issues _ root.state root.world hbuilt
  rw [root.stop_eq hactive]
  exact (hreleased.then_none (World.issues_reset _ root.initial)).orders_eq

theorem Driven.start_idle (h : vigil.Driven label interval others initial root)
    (hworks : vigil.Works volley label interval others) (hrest : root.active = false) :
    vigil.Idle label interval others root.start ∧
      root.start.orders = root.orders := by
  have hquiet := ((h.kept hworks).resting hrest).1
  have htree := h.tree_eq
  have hsilent := h.silent hworks
  rcases root with ⟨tree, state, world, values, active⟩
  obtain rfl : tree = vigil.tree label interval others := htree
  obtain rfl : active = false := hrest
  have hbelow : (vigil.tree label interval others).Quiet state := hquiet
  obtain ⟨timer, begun, hcomes⟩ := start_quiet hbelow hsilent
  have hstart : (Root.mk (vigil.tree label interval others) state world values false).start =
      ⟨vigil.tree label interval others, ⟨.running, timer, .running, 0, state.child.children⟩, begun,
        values, true⟩ := by
    rw [Root.start, if_neg (by simp), hcomes.start_eq]
  rw [hstart]
  exact ⟨.inr (.inr ⟨_, rfl, timer, _, _, rfl, hquiet.2.2.2.1, hcomes.quiet⟩), hcomes.issues.orders_eq⟩

/-- The call gives no orders, and at most a stop ends the aiming. -/
structure Calm (vigil : Vigil (Recorded A)) (label : String) (interval : Duration)
    (others : List (Tree (Recorded A))) (root : Root (Recorded A)) (call : Call (Recorded A)) :
    Prop where
  orders_eq : (root.call call).orders = root.orders
  idle : vigil.Idle label interval others root → vigil.Idle label interval others (root.call call)
  awaits : ∀ since, vigil.Awaits label interval others since root →
    vigil.Idle label interval others (root.call call) ∨
      call ≠ .stop ∧ vigil.Awaits label interval others since (root.call call)

theorem Calm.of_same (hgoing : call ≠ .stop) (hnode : (root.call call).node = root.node)
    (hactive : (root.call call).active = root.active)
    (horders : (root.call call).orders = root.orders) :
    vigil.Calm label interval others root call := by
  have hstatus : (root.call call).status = root.status := congrArg Subtree.status hnode
  refine ⟨horders, fun hidle => ?_, fun since hawaits => .inr ⟨hgoing, ?_⟩⟩
  · rw [Idle, hactive, hstatus, hnode]
    exact hidle
  · rw [Awaits, hactive, hnode]
    exact hawaits

theorem Calm.of_eq (hgoing : call ≠ .stop) (h : root.call call = root) :
    vigil.Calm label interval others root call :=
  .of_same hgoing (congrArg Root.node h) (congrArg Root.active h) (congrArg Root.orders h)

theorem Driven.calm (h : vigil.Driven label interval others initial root)
    (hworks : vigil.Works volley label interval others) (hfair : call.Fair)
    (hstill : root.ticking? call = none) : vigil.Calm label interval others root call := by
  have hsilent := h.silent hworks
  cases call with
  | start =>
    by_cases hactive : root.active = true
    · exact .of_eq (by simp) (if_pos hactive)
    · obtain ⟨hidle, horders⟩ := h.start_idle hworks (Bool.eq_false_iff.mpr hactive)
      exact ⟨horders, fun _ => hidle, fun _ _ => .inl hidle⟩
  | tick =>
    have hrest : root.active ≠ true :=
      fun hactive => Option.some_ne_none _ ((if_pos hactive).symm.trans hstill)
    exact .of_eq (by simp) (Root.tick_eq_self hrest)
  | update dt =>
    have hrest : (root.advance dt).active ≠ true :=
      fun hactive => Option.some_ne_none _ ((if_pos hactive).symm.trans hstill)
    have hupdate : root.call (.update dt) = root.advance dt := Root.tick_eq_self hrest
    refine .of_same (by simp) ?_ ?_ ?_ <;> rw [hupdate]
    · rfl
    · rfl
    · exact h.orders_advance hworks dt
  | stop =>
    by_cases hactive : root.active = true
    · have hidle : vigil.Idle label interval others root.stop := by
        rw [root.stop_eq hactive]
        exact .inl rfl
      exact ⟨h.orders_stop hworks hactive, fun _ => hidle, fun _ _ => .inl hidle⟩
    · have hstop : root.call .stop = root := if_pos (by simpa using hactive)
      have hidle : vigil.Idle label interval others (root.call .stop) := by
        rw [hstop]
        exact .inl (Bool.eq_false_iff.mpr hactive)
      exact ⟨congrArg Root.orders hstop, fun _ => hidle, fun _ _ => .inl hidle⟩
  | advance dt => exact .of_same (by simp) rfl rfl (h.orders_advance hworks dt)
  | steer f => exact .of_same (by simp) rfl rfl (hfair _)
  | set key value => exact .of_same (by simp) rfl rfl (World.issues_set hsilent key value).orders_eq
  | remove key => exact .of_same (by simp) rfl rfl (World.issues_remove hsilent key).orders_eq
  | getNumber key => exact .of_same (by simp) rfl rfl (World.issues_getNumber _ key).orders_eq
  | getBool key => exact .of_same (by simp) rfl rfl (World.issues_getBool _ key).orders_eq
  | clear | watch _ _ | unwatch _ => exact hfair.elim

/-- After some earlier calls, the call `entry` ticks the tree as `start`, enters the branch, and stops turning.
It and the calls after it find the target lined up whenever they tick the tree, and none of them stops the
tree. -/
structure Lasts (vigil : Vigil (Recorded A)) (root : Root (Recorded A)) (earlier : List (Call (Recorded A)))
    (entry : Call (Recorded A)) (between : List (Call (Recorded A))) (start : Root (Recorded A)) :
    Prop where
  begins : (root.calls earlier).ticking? entry = some start
  enters : vigil.Enters start.visits
  opens : ∃ issued, (root.calls (earlier ++ [entry])).orders =
    issued ++ .turn 0 :: (root.calls earlier).orders
  aims : ∀ before call ticked, before ++ [call] <+: entry :: between →
    (root.calls (earlier ++ before)).ticking? call = some ticked → vigil.Aims ticked.visits
  going : Call.stop ∉ entry :: between

variable {calls earlier between : List (Call (Recorded A))} {entry : Call (Recorded A)}
variable {start : Root (Recorded A)}

theorem Lasts.append (h : vigil.Lasts root earlier entry between start) (hgoing : call ≠ .stop)
    (haims : ∀ ticked, (root.calls (earlier ++ entry :: between)).ticking? call = some ticked →
      vigil.Aims ticked.visits) : vigil.Lasts root earlier entry (between ++ [call]) start := by
  refine ⟨h.begins, h.enters, h.opens, fun before later ticked hbefore hticking => ?_, ?_⟩
  · rw [← List.cons_append, List.prefix_concat_iff] at hbefore
    obtain heq | hbefore := hbefore
    · obtain ⟨rfl, hlast⟩ := List.append_inj' heq rfl
      cases hlast
      exact haims ticked hticking
    · exact h.aims before later ticked hbefore hticking
  · rw [← List.cons_append, List.mem_append, List.mem_singleton]
    exact not_or.mpr ⟨h.going, hgoing.symm⟩

theorem Lasts.begin (hbegins : (root.calls earlier).ticking? entry = some start)
    (henters : vigil.Enters start.visits)
    (hopens : ∃ issued, (root.calls (earlier ++ [entry])).orders =
      issued ++ .turn 0 :: (root.calls earlier).orders)
    (haims : vigil.Aims start.visits) : vigil.Lasts root earlier entry [] start := by
  refine ⟨hbegins, henters, hopens, fun before later ticked hbefore hticking => ?_, ?_⟩
  · rw [← List.nil_append [entry], List.prefix_concat_iff] at hbefore
    obtain heq | hbefore := hbefore
    · obtain ⟨rfl, hlast⟩ := List.append_inj' heq rfl
      cases hlast
      rw [List.append_nil, hbegins] at hticking
      cases hticking
      exact haims
    · exact absurd (List.prefix_nil.mp hbefore) (by simp)
  · simpa using (Root.ne_stop_of_ticking hbegins).symm

/-- After these calls the root is idle, or it aims since a call that entered the branch, and has done no more
since than to stop turning. -/
def Stands (vigil : Vigil (Recorded A)) (label : String) (interval : Duration)
    (others : List (Tree (Recorded A))) (root : Root (Recorded A)) (calls : List (Call (Recorded A))) :
    Prop :=
  vigil.Idle label interval others (root.calls calls) ∨ ∃ earlier entry between start,
    calls = earlier ++ entry :: between ∧ vigil.Lasts root earlier entry between start ∧
    vigil.Awaits label interval others start.world.now (root.calls calls) ∧
    (root.calls calls).orders = .turn 0 :: (root.calls earlier).orders

/-- The call after these calls acts at the end of a pause: a call that entered the branch began it, the target
was lined up in all ticks since, and the agent has done no more meanwhile than to stop turning. -/
def Ends (vigil : Vigil (Recorded A)) (volley : List Order → Prop) (root : Root (Recorded A))
    (calls : List (Call (Recorded A))) (call : Call (Recorded A)) : Prop :=
  ∃ earlier entry between start last orders,
    calls ++ [call] = earlier ++ entry :: between ∧ vigil.Lasts root earlier entry between start ∧
    (root.calls calls).ticking? call = some last ∧
    start.world.now + vigil.pause ≤ last.world.now ∧ volley orders ∧
    (root.calls (calls ++ [call])).orders = orders ++ .turn 0 :: (root.calls earlier).orders

/-- What a call does to a root that has got so far. -/
structure Follows (vigil : Vigil (Recorded A)) (volley : List Order → Prop) (label : String)
    (interval : Duration) (others : List (Tree (Recorded A))) (root : Root (Recorded A))
    (calls : List (Call (Recorded A))) (call : Call (Recorded A)) : Prop where
  stands : vigil.Stands label interval others root (calls ++ [call])
  orders : ∃ issued, (root.calls (calls ++ [call])).orders = issued ++ (root.calls calls).orders ∧
    ∀ amount, .fire amount ∈ issued → vigil.Ends volley root calls call

theorem follows_still (h : vigil.Stands label interval others root calls)
    (hdriven : vigil.Driven label interval others initial (root.calls calls))
    (hworks : vigil.Works volley label interval others) (hcall : call.Fair)
    (hstill : (root.calls calls).ticking? call = none) :
    vigil.Follows volley label interval others root calls call := by
  obtain ⟨horders, hidle, hgoes⟩ := hdriven.calm hworks hcall hstill
  rw [← Root.calls_append] at horders hidle hgoes
  refine ⟨?_, [], horders, fun _ => (nomatch ·)⟩
  obtain hbefore | ⟨earlier, entry, between, start, rfl, hlasts, hawaits, hturned⟩ := h
  · exact .inl (hidle hbefore)
  · obtain hended | ⟨hgoing, hstill'⟩ := hgoes _ hawaits
    · exact .inl hended
    · have haims (ticked : Root (Recorded A))
          (hticking : (root.calls (earlier ++ entry :: between)).ticking? call = some ticked) :
          vigil.Aims ticked.visits := by
        rw [hstill] at hticking
        cases hticking
      exact .inr ⟨earlier, entry, between ++ [call], start, by simp, hlasts.append hgoing haims, hstill',
        horders.trans hturned⟩

theorem Ticks.follows {ticked : Root (Recorded A)}
    (h : vigil.Ticks label interval others volley start.world.now first ticked ticked.tick)
    (hticking : (root.calls calls).ticking? call = some ticked)
    (horders : ticked.orders = (root.calls calls).orders)
    (hsplit : calls ++ [call] = earlier ++ entry :: between)
    (hlasts : (∃ issued, (root.calls (calls ++ [call])).orders =
        issued ++ (first ++ (root.calls calls).orders)) →
      vigil.Aims ticked.visits → vigil.Lasts root earlier entry between start)
    (hfirst : first ++ ticked.orders = .turn 0 :: (root.calls earlier).orders)
    (hharmless : ∀ amount, .fire amount ∉ first) :
    vigil.Follows volley label interval others root calls call := by
  have hcall : root.calls (calls ++ [call]) = ticked.tick := by
    rw [Root.calls_append, (Root.ticking?_eq_some hticking).1]
  unfold Root.orders at horders hfirst
  cases h with
  | @strays amount hidle hissues =>
    rw [← hcall] at hidle hissues
    refine ⟨.inl hidle, [.turn amount], ?_, fun _ => by simp⟩
    rw [Root.orders, hissues.orders_eq, horders, Root.orders]
  | waits haims hawaits hissues =>
    rw [← hcall] at hawaits hissues
    have hopened : (root.calls (calls ++ [call])).orders = first ++ (root.calls calls).orders := by
      rw [Root.orders, hissues.orders_eq, horders, Root.orders]
    refine ⟨.inr ⟨earlier, entry, between, start, hsplit, hlasts ⟨[], hopened⟩ haims, hawaits, ?_⟩, first,
      hopened, fun amount hmem => absurd hmem (hharmless amount)⟩
    rw [Root.orders, hissues.orders_eq, hfirst, Root.orders]
  | @acts orders haims hidle hvolley hpassed hissues =>
    rw [← hcall] at hidle hissues
    have hopened : (root.calls (calls ++ [call])).orders =
        orders ++ (first ++ (root.calls calls).orders) := by
      rw [Root.orders, hissues.orders_eq, horders, List.append_assoc, Root.orders]
    refine ⟨.inl hidle, orders ++ first, hopened.trans (List.append_assoc _ _ _).symm, fun _ _ => ?_⟩
    refine ⟨earlier, entry, between, start, ticked, orders, hsplit, hlasts ⟨orders, hopened⟩ haims,
      hticking, hpassed, hvolley, ?_⟩
    rw [Root.orders, hissues.orders_eq, List.append_assoc, hfirst, Root.orders]

theorem Driven.ticked (h : vigil.Driven label interval others initial root)
    (hworks : vigil.Works volley label interval others) {ticked : Root (Recorded A)}
    (hticking : root.ticking? call = some ticked) :
    vigil.Driven label interval others initial ticked ∧
      ticked.orders = root.orders ∧
      (vigil.Idle label interval others root → vigil.Idle label interval others ticked) ∧
      ∀ since, vigil.Awaits label interval others since root →
        vigil.Awaits label interval others since ticked := by
  obtain ⟨-, -, rfl | ⟨dt, rfl⟩⟩ := Root.ticking?_eq_some hticking
  · exact ⟨h, rfl, id, fun _ => id⟩
  · have hadvanced := h.called (show (Call.advance dt).Fair from trivial)
    exact ⟨hadvanced, h.orders_advance hworks dt, id, fun _ => id⟩

theorem follows_tick (h : vigil.Stands label interval others root calls)
    (hdriven : vigil.Driven label interval others initial (root.calls calls))
    (hworks : vigil.Works volley label interval others) {ticked : Root (Recorded A)}
    (hticking : (root.calls calls).ticking? call = some ticked) :
    vigil.Follows volley label interval others root calls call := by
  obtain hidle | ⟨earlier, entry, between, start, rfl, hlasts, hawaits, hturned⟩ := h
  · obtain ⟨hdriven', horders, hidle', -⟩ := hdriven.ticked hworks hticking
    obtain ⟨henters, hticks⟩ :=
      (hidle' hidle).ticks hdriven' hworks (Root.ticking?_eq_some hticking).2.1
    exact hticks.follows hticking horders rfl (.begin hticking henters) (congrArg (_ :: ·) horders)
      (by simp)
  · obtain ⟨hdriven', horders, -, hawaits'⟩ := hdriven.ticked hworks hticking
    have hsplit : (earlier ++ entry :: between) ++ [call] = earlier ++ entry :: (between ++ [call]) := by
      simp
    refine ((hawaits' _ hawaits).ticks hdriven' hworks).follows hticking horders hsplit (fun _ haims => ?_)
      (horders.trans hturned) (by simp)
    refine hlasts.append (Root.ne_stop_of_ticking hticking) fun later hlater => ?_
    rw [hticking] at hlater
    cases hlater
    exact haims

/-- Each call leaves the root idle, or aiming since a call that entered the branch, and only at the end of a
pause does it fire. -/
theorem follows (h : vigil.Stands label interval others root calls)
    (hdriven : vigil.Driven label interval others initial (root.calls calls))
    (hworks : vigil.Works volley label interval others) (hcall : call.Fair) :
    vigil.Follows volley label interval others root calls call := by
  cases hticking : (root.calls calls).ticking? call with
  | none => exact follows_still h hdriven hworks hcall hticking
  | some ticked => exact follows_tick h hdriven hworks hticking

theorem stands (hdriven : vigil.Driven label interval others initial root)
    (hworks : vigil.Works volley label interval others) (hrest : root.active = false)
    (calls : List (Call (Recorded A))) (hcalls : ∀ call ∈ calls, call.Fair) :
    vigil.Driven label interval others initial (root.calls calls) ∧
      vigil.Stands label interval others root calls := by
  -- From the back: what the last call ends was begun by one of those before it.
  induction calls using List.reverseRecOn with
  | nil => exact ⟨hdriven, .inl (.inl hrest)⟩
  | append_singleton calls call ih =>
    obtain ⟨hbefore, hcall⟩ := List.forall_mem_append.mp hcalls
    obtain ⟨hdriven, hstands⟩ := ih hbefore
    have hlast := List.forall_mem_singleton.mp hcall
    refine ⟨?_, (follows hstands hdriven hworks hlast).stands⟩
    rw [Root.calls_append]
    exact hdriven.called hlast

end Vigil

namespace Recipe

variable [Tank A] {recipe : Recipe} {params : RecipeParams}

/-- What a recipe does where its target is lined up, if it waits before it fires. -/
def vigil? (params : RecipeParams) : Recipe → Option (Vigil A)
  | .track => some ⟨params.aim, params.trackWait, [randomFire]⟩
  | .unpredictable => some ⟨params.aim, params.unpredictableWait, [randomMove, randomFire]⟩
  | _ => none

def turning (params : RecipeParams) : List (Tree A) :=
  [.condition ⟨Perception.targetOnRight, .equal, .bool true⟩ .immediateRestart
    (some (turn params.turnRate)), turn (-params.turnRate)]

/-- What a recipe that waits orders after the pause. The latest order comes first. -/
def Volley : Recipe → List Order → Prop
  | .track, orders => ∃ force, orders = [.fire force]
  | .unpredictable, orders => ∃ force step, orders = [.fire force, .move step]
  | _, _ => False

theorem tree_eq {vigil : Vigil A} (h : recipe.vigil? params = some vigil) :
    recipe.tree params = vigil.tree (Constructor.serviceLabel perceptionService)
      params.perceptionInterval (turning params) := by
  cases recipe <;> cases h <;> rfl

theorem turns_turning (params : RecipeParams) : Vigil.Turns (A := A) (turning params) :=
  (Vigil.turns_turn _ [] trivial).guarded _ _ _

theorem works {vigil : Vigil (Recorded A)} (h : recipe.vigil? params = some vigil) :
    vigil.Works recipe.Volley (Constructor.serviceLabel perceptionService) params.perceptionInterval
      (turning params) := by
  have hfire : (randomFire (A := Recorded A)).Gives fun order => ∃ force, order = .fire force :=
    Tree.gives_drawn fun _ _ => rfl
  have hmove : (randomMove (A := Recorded A)).Gives fun order => ∃ step, order = .move step :=
    Tree.gives_drawn fun _ _ => rfl
  have hlook := Perception.refresh_passive (A := Recorded A)
  cases recipe <;> cases h
  case track =>
    refine ⟨(Tree.GivesAll.nil.cons hfire).imp ?_, turns_turning params, ⟨hlook, ?_⟩⟩
    · rintro _ ⟨_, _, ⟨force, rfl⟩, rfl, rfl⟩
      exact ⟨force, rfl⟩
    · exact ⟨⟨trivial, trivial, trivial, trivial⟩, trivial, trivial, trivial⟩
  case unpredictable =>
    refine ⟨((Tree.GivesAll.nil.cons hfire).cons hmove).imp ?_, turns_turning params, ⟨hlook, ?_⟩⟩
    · rintro _ ⟨_, _, ⟨step, rfl⟩, ⟨_, _, ⟨force, rfl⟩, rfl, rfl⟩, rfl⟩
      exact ⟨force, step, rfl⟩
    · exact ⟨⟨trivial, trivial, trivial, trivial, trivial⟩, trivial, trivial, trivial⟩

end Recipe

namespace Library

variable [Tank A] {library : Library} {recipe : Recipe} {agent : Recorded A}
variable {vigil : Vigil (Recorded A)} {root : Root (Recorded A)}

theorem build_driven (hvigil : recipe.vigil? library.params = some vigil)
    (hroot : (library.build recipe agent).1 = .ok root) :
    vigil.Driven (Constructor.serviceLabel Recipe.perceptionService) library.params.perceptionInterval
      (Recipe.turning library.params) Values.empty root ∧ root.active = false := by
  have hcreated : Root.withBoard (recipe.tree library.params) (.ofValues .empty) agent
      (fun _ agent => agent) library.nextRandom.1 = .ok root := hroot
  rw [Recipe.tree_eq hvigil] at hcreated
  refine ⟨.opened (Board.sound_ofValues .empty) rfl (fun _ _ _ => rfl) hcreated, ?_⟩
  obtain ⟨-, rfl⟩ := Root.withBoard_eq_ok.mp hcreated
  rfl

/-- A recipe that waits before it fires never fires without having held its aim. Whatever the host calls, and
wherever the target goes meanwhile, each call only adds to the orders of the tank; and where one adds an order
to fire, it does so at the end of a pause that began when the branch was entered. -/
theorem fires_after_pause (hvigil : recipe.vigil? library.params = some vigil)
    (hroot : (library.build recipe agent).1 = .ok root) (calls : List (Call (Recorded A)))
    (call : Call (Recorded A)) (hfair : ∀ each ∈ calls ++ [call], each.Fair) :
    ∃ issued, (root.calls (calls ++ [call])).orders = issued ++ (root.calls calls).orders ∧
      ∀ force, .fire force ∈ issued → vigil.Ends recipe.Volley root calls call := by
  obtain ⟨hdriven, hrest⟩ := build_driven hvigil hroot
  obtain ⟨hcalls, hcall⟩ := List.forall_mem_append.mp hfair
  obtain ⟨hdriven', hstands⟩ := Vigil.stands hdriven (Recipe.works hvigil) hrest calls hcalls
  exact (Vigil.follows hstands hdriven' (Recipe.works hvigil) (List.forall_mem_singleton.mp hcall)).orders

end Library

structure Turret where
  target : Option LocalPoint

instance : Tank Turret where
  moveBy _ turret := turret
  turn _ turret := turret
  fire _ turret := turret
  target? := Turret.target

namespace Turret

def library : Library :=
  .ofSeed { aim := ⟨"clear", .isSet, .bool true⟩, trackWait := Duration.ofSeconds 1 } 0

def vigil : Vigil (Recorded Turret) :=
  ⟨⟨"clear", .isSet, .bool true⟩, Duration.ofSeconds 1, [Recipe.randomFire]⟩

def root : Root (Recorded Turret) :=
  .opened (Recipe.track.tree library.params) (.ofValues .empty) ⟨⟨none⟩, []⟩ (fun _ agent => agent)
    library.nextRandom.1

def calls : List (Call (Recorded Turret)) :=
  [.start, .set "clear" (.bool true), .tick, .advance (Duration.ofSeconds 1)]

theorem fires_after_second :
    (library.build .track ⟨⟨none⟩, []⟩).1 = .ok root ∧ (∀ each ∈ calls ++ [.tick], each.Fair) ∧
    (∃ force, (root.calls (calls ++ [.tick])).orders = [.fire force] ++ (root.calls calls).orders) ∧
    vigil.Ends Recipe.track.Volley root calls .tick := by
  have hvigil : Recipe.track.vigil? library.params = some vigil := rfl
  have hroot : (library.build .track ⟨⟨none⟩, []⟩).1 = .ok root := rfl
  have hfair : ∀ each ∈ calls ++ [.tick], each.Fair := by simp [calls, Call.Fair]
  obtain ⟨force, hfires⟩ : ∃ force, (root.calls (calls ++ [.tick])).orders =
      [.fire force] ++ (root.calls calls).orders := ⟨_, rfl⟩
  obtain ⟨issued, hissued, hends⟩ := Library.fires_after_pause hvigil hroot calls .tick hfair
  obtain rfl := List.append_cancel_right (hfires.symm.trans hissued)
  exact ⟨hroot, hfair, ⟨force, hfires⟩, hends force (List.mem_singleton_self _)⟩

end Turret

end BehaviorTree
