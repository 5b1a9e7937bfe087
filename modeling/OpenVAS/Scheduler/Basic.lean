import OpenVAS.Lib.CString
import Mathlib.Logic.Function.Basic

/-! The plugin scheduler of `pluginscheduler.c`. Plugins are numbered; a pointer
to a plugin or to its hash link is its number. What `plugins_scheduler_init`
fixes once is kept apart from what the scheduler changes while it runs. -/
namespace Scheduler

open CString

def actInit : Nat := 0
def actScanner : Nat := 1
def actSettings : Nat := 2
def actGatherInfo : Nat := 3
def actAttack : Nat := 4
def actMixedAttack : Nat := 5
def actDestructiveAttack : Nat := 6
def actDenial : Nat := 7
def actKillHost : Nat := 8
def actFlood : Nat := 9
def actEnd : Nat := 10

/-- `ACT_FIRST`. -/
def actFirst : Nat := actInit

/-- `ACT_LAST`. -/
def actLast : Nat := actEnd

/-- The `PLUGIN_STATUS_*` values. -/
inductive RunningState where
  | unrun
  | running
  | done
  | doneAndCleaned
  deriving DecidableEq, Repr

/-- The fields of plugins and hash links that stay as `plugins_scheduler_init`
left them. The pointers `dependencies_ptr` and `ports` may be NULL. -/
structure PluginTable (n : Nat) where
  category : Fin n → Nat
  dependenciesPtr : Fin n → Option (List (Fin n))
  ports : Fin n → Option (List CString)

/-- The resolved dependencies of a plugin. -/
def PluginTable.deps {n : Nat} (table : PluginTable n) (p : Fin n) : List (Fin n) :=
  (table.dependenciesPtr p).getD []

/-- An element of the list of ports in use. -/
structure Plist where
  name : CString
  occurences : Int
  deriving DecidableEq, Repr

/-- The changing part of a scheduler: the running states of the plugins, the
category lists (used up to `ACT_LAST`) and the ports in use. -/
structure Sched (n : Nat) where
  state : Fin n → RunningState
  list : Nat → List (Fin n)
  plist : List Plist

variable {n : Nat}

def pluginSetRunningState (s : Sched n) (p : Fin n) (state : RunningState) : Sched n :=
  { s with state := Function.update s.state p state }

/-- One more user of a port. The name is copied into 64 bytes. -/
def markPort (port : CString) : List Plist → Option (List Plist)
  | [] => none
  | pl :: next =>
      if pl.name = port then some ({ pl with occurences := pl.occurences + 1 } :: next)
      else (markPort port next).map (pl :: ·)

/-- One user of a port less; the element goes away with its last user. -/
def rmPort (port : CString) : List Plist → List Plist
  | [] => []
  | pl :: next =>
      if pl.name = port then
        if pl.occurences - 1 = 0 then next
        else { pl with occurences := pl.occurences - 1 } :: next
      else pl :: rmPort port next

def schedulerMarkRunningPorts (table : PluginTable n) (s : Sched n) (p : Fin n) : Sched n :=
  match table.ports p with
  | none => s
  | some ports =>
      let mark (plist : List Plist) (port : CString) :=
        (markPort port plist).getD (⟨port.take 63, 1⟩ :: plist)
      { s with plist := ports.foldl mark s.plist }

def schedulerRmRunningPorts (table : PluginTable n) (s : Sched n) (p : Fin n) : Sched n :=
  match table.ports p with
  | none => s
  | some ports => { s with plist := ports.foldl (fun plist port => rmPort port plist) s.plist }

/-- `PLUGIN_STATUS_DONE` becomes `PLUGIN_STATUS_DONE_AND_CLEANED`. -/
def cleanUp (table : PluginTable n) (s : Sched n) (p : Fin n) : Sched n :=
  pluginSetRunningState (schedulerRmRunningPorts table s p) p .doneAndCleaned

/-- A plugin is handed out. -/
def startPlugin (table : PluginTable n) (s : Sched n) (p : Fin n) : Sched n :=
  pluginSetRunningState (schedulerMarkRunningPorts table s p) p .running

/-- A `struct scheduler_plugin *` result: NULL, `PLUG_RUNNING` or a plugin. -/
inductive Found (n : Nat) where
  | null
  | plugRunning
  | plugin (p : Fin n)
  deriving DecidableEq, Repr

/-- The loop of `plugin_next_unrun_dependencie` over an array of dependencies.
`search` is the recursive call, with `none` for a call that does not return. -/
def dependenciesLoop (table : PluginTable n)
    (search : Sched n → List (Fin n) → Option (Found n × Sched n)) :
    Sched n → Bool → List (Fin n) → Option (Found n × Sched n)
  | s, flag, [] => some (if flag then .plugRunning else .null, s)
  | s, flag, plugin :: next =>
      match s.state plugin with
      | .unrun =>
          match table.dependenciesPtr plugin with
          | none => some (.plugin plugin, s)
          | some depsPtr =>
              match search s depsPtr with
              | none => none
              | some (.null, s) => some (.plugin plugin, s)
              | some (.plugRunning, s) => dependenciesLoop table search s true next
              | some (.plugin ret, s) => some (.plugin ret, s)
      | .running => dependenciesLoop table search s true next
      | .done => dependenciesLoop table search (cleanUp table s plugin) flag next
      | .doneAndCleaned => dependenciesLoop table search s flag next

/-- `plugin_next_unrun_dependencie` on a non-NULL array. The fuel bounds the
depth of the recursion, which the code does not bound. -/
def pluginNextUnrunDependencie (table : PluginTable n) :
    Nat → Sched n → List (Fin n) → Option (Found n × Sched n)
  | 0, _, _ => none
  | fuel + 1, s, depsPtr =>
      dependenciesLoop table (pluginNextUnrunDependencie table fuel) s false depsPtr

/-- How the walk along one category list ends: a plugin to hand out, or the end
of the list with the count of plugins to wait for and their least category. -/
inductive ListWalk (n : Nat) where
  | found (p : Fin n) (s : Sched n)
  | exhausted (flag runningCategory : Nat) (s : Sched n)

/-- The while loop over `h->list[category]`. The cells before the current one
are `kept`, those from it on are `rest`. -/
def listWalk (table : PluginTable n) (fuel category : Nat) :
    Sched n → Nat → Nat → List (Fin n) → List (Fin n) → Option (ListWalk n)
  | s, flag, runningCategory, kept, [] =>
      some (.exhausted flag runningCategory { s with list := Function.update s.list category kept })
  | s, flag, runningCategory, kept, l :: rest =>
      let here (s : Sched n) : Sched n :=
        { s with list := Function.update s.list category (kept ++ l :: rest) }
      let wait (s : Sched n) := listWalk table fuel category s (flag + 1)
        (min (table.category l) runningCategory) (kept ++ [l]) rest
      match s.state l with
      | .unrun =>
          match table.dependenciesPtr l with
          | some depsPtr =>
              match pluginNextUnrunDependencie table fuel s depsPtr with
              | none => none
              | some (.null, s) => some (.found l (here (startPlugin table s l)))
              | some (.plugRunning, s) => wait s
              | some (.plugin p, s) => some (.found p (here (startPlugin table s p)))
          | none => some (.found l (here (startPlugin table s l)))
      | .running => wait s
      | .done => listWalk table fuel category (cleanUp table s l) flag runningCategory kept rest
      | .doneAndCleaned => listWalk table fuel category s flag runningCategory kept rest

/-- The categories whose plugins must not be run in parallel. -/
def exclusiveCategory (category : Nat) : Bool :=
  category = actScanner || category = actKillHost || category = actFlood || category = actDenial

/-- What the scheduler uses of `pluginlaunch.c`. A wait that returns has moved
running plugins to DONE, at least one of them, and has touched no other state,
as long as the process table is consistent with the running states. -/
structure Launcher (n : Nat) where
  World : Type
  disableParrallelChecks : World → World
  enableParrallelChecks : World → World
  waitForFreeProcess : World → (Fin n → RunningState) → Option (World × (Fin n → RunningState))
  Inv : World → (Fin n → RunningState) → Prop
  disable_inv : ∀ w state, Inv w state → Inv (disableParrallelChecks w) state
  enable_inv : ∀ w state, Inv w state → Inv (enableParrallelChecks w) state
  inv_mono : ∀ w state state', Inv w state →
    (∀ p, state p = .running → state' p = .running) → Inv w state'
  wait_inv : ∀ w state w' state', Inv w state →
    waitForFreeProcess w state = some (w', state') → Inv w' state'
  wait_finishes : ∀ w state w' state', Inv w state →
    waitForFreeProcess w state = some (w', state') →
    ∀ p, state' p = state p ∨ (state p = .running ∧ state' p = .done)
  wait_progress : ∀ w state w' state', Inv w state →
    waitForFreeProcess w state = some (w', state') →
    ∃ p, state p = .running ∧ state' p = .done

/-- The parallelism set for the visit of a category. -/
def Launcher.setFor (L : Launcher n) (category : Nat) (w : L.World) : L.World :=
  if exclusiveCategory category then L.disableParrallelChecks w else L.enableParrallelChecks w

/-- The answer of `plugins_scheduler_next`, a plugin with the category list in
which it was found. -/
inductive Answer (n : Nat) where
  | null
  | plugRunning
  | plugin (p : Fin n) (visited : Nat)
  deriving DecidableEq, Repr

/-- Why a call has no answer: it is inside a wait that does not return, or it
needs more fuel. -/
inductive Stop where
  | waiting
  | fuel
  deriving DecidableEq, Repr

/-- The for loop of `plugins_scheduler_next`. After a wait the same category is
visited again with the flag reset, while the running category is kept. -/
def schedulerLoop (table : PluginTable n) (L : Launcher n) (fuel : Nat) :
    Nat → Nat → Nat → Nat → L.World → Sched n → Except Stop (Answer n × L.World × Sched n)
  | 0, _, _, _, _, _ => .error .fuel
  | steps + 1, category, flag, runningCategory, w, s =>
      if category ≤ actLast then
        let w := L.setFor category w
        match listWalk table fuel category s flag runningCategory [] (s.list category) with
        | none => .error .fuel
        | some (.found p s) => .ok (.plugin p category, w, s)
        | some (.exhausted flag runningCategory s) =>
            if (category = actScanner ∨ category = actInit ∨ category = actSettings) ∧ flag ≠ 0 then
              match L.waitForFreeProcess w s.state with
              | none => .error .waiting
              | some (w, state) =>
                  schedulerLoop table L fuel steps category 0 runningCategory w
                    { s with state := state }
            else if category + 1 ≥ actDenial ∧ flag ≠ 0 ∧ runningCategory < actDenial then
              .ok (.plugRunning, w, s)
            else schedulerLoop table L fuel steps (category + 1) flag runningCategory w s
      else .ok (if flag ≠ 0 then .plugRunning else .null, w, s)

def pluginsSchedulerNext (table : PluginTable n) (L : Launcher n) (fuel : Nat) (w : L.World)
    (s : Sched n) : Except Stop (Answer n × L.World × Sched n) :=
  schedulerLoop table L fuel fuel actFirst 0 actLast w s

end Scheduler
