-- A system in memory that remembers. Beside what a computation does to a session, it tells through
-- which sessions it goes on the way.
import ModularSynth.Files.Host

namespace ModularSynth

/-- A computation on a session: its result, the session that it leads to, and the sessions that
it goes through, one after each operation of the system. -/
def Trail (α : Type) : Type :=
  Session → (α × Session) × List Session

namespace Trail

variable {α β : Type}

instance : Monad Trail where
  pure a := fun s => ((a, s), [])
  bind x f := fun s =>
    let ((a, t), first) := x s
    let (last, later) := f a t
    (last, first ++ later)

/-- A computation that is one operation of the system. -/
def operate (operation : StateM Session α) : Trail α :=
  fun s => (operation.run s, [(operation.run s).2])

/-- The system in memory, with a trail. -/
def host : Host Trail where
  workingDirectory := operate Session.host.workingDirectory
  isDirectory p := operate (Session.host.isDirectory p)
  readFile p := operate (Session.host.readFile p)
  listDirectory p := operate (Session.host.listDirectory p)
  createDirectory p := operate (Session.host.createDirectory p)
  writeFile p contents := operate (Session.host.writeFile p contents)
  print bytes := operate (Session.host.print bytes)
  report text := operate (Session.host.report text)

/-- The sessions that a computation goes through from a session on, with this one. -/
def sessions (x : Trail α) (s : Session) : List Session :=
  s :: (x s).2

end Trail

/-- A relation between an earlier disk and a later one. -/
structure Passing (R : Disk → Disk → Prop) : Prop where
  refl : ∀ d, R d d
  trans : ∀ {d e f}, R d e → R e f → R d f

/-- From a session on, a computation does what the other one does, and the disk of each session
on its way stands in a relation to the disk at its end. -/
structure Follows {α : Type} (R : Disk → Disk → Prop) (x : Trail α) (y : StateM Session α)
    (s : Session) : Prop where
  same : (x s).1 = y.run s
  leads : ∀ t ∈ x.sessions s, R t.disk (y.run s).2.disk

namespace Follows

variable {α β : Type} {R : Disk → Disk → Prop} {s : Session}

theorem pure (passing : Passing R) (a : α) : Follows R (Pure.pure a) (Pure.pure a) s where
  same := rfl
  leads t mem := by
    rw [List.mem_singleton.mp mem]
    exact passing.refl _

theorem operate (passing : Passing R) {operation : StateM Session α}
    (step : R s.disk (operation.run s).2.disk) : Follows R (.operate operation) operation s where
  same := rfl
  leads t mem := by
    rcases List.mem_cons.mp mem with rfl | mem
    · exact step
    · rw [List.mem_singleton.mp mem]
      exact passing.refl _

/-- An operation that only looks at the disk. -/
theorem look (passing : Passing R) {operation : StateM Session α}
    (still : (operation.run s).2.disk = s.disk) : Follows R (.operate operation) operation s :=
  .operate passing (still ▸ passing.refl _)

theorem bind (passing : Passing R) {x : Trail α} {y : StateM Session α} {f : α → Trail β}
    {g : α → StateM Session β} (first : Follows R x y s)
    (later : Follows R (f (y.run s).1) (g (y.run s).1) (y.run s).2) :
    Follows R (x >>= f) (y >>= g) s := by
  obtain ⟨same, leads⟩ := first
  obtain ⟨same', leads'⟩ := later
  have sessions : (x >>= f).sessions s =
      x.sessions s ++ (f (y.run s).1 (y.run s).2).2 := by
    rw [← same]
    rfl
  constructor
  · rw [StateT.run_bind]
    change (f (x s).1.1 (x s).1.2).1 = (g (y.run s).1).run (y.run s).2
    rw [same]
    exact same'
  · rw [StateT.run_bind, sessions]
    intro t mem
    rcases List.mem_append.mp mem with early | late
    · exact passing.trans (leads t early) (leads' _ List.mem_cons_self)
    · exact leads' t (List.mem_cons_of_mem _ late)

section Making

variable (passing : Passing R)
  (makes : ∀ p s, R s.disk ((Session.host.createDirectory p).run s).2.disk)
include passing makes

theorem ensureDirectory (p : Path) (s : Session) :
    Follows R (Trail.host.ensureDirectory p) (Session.host.ensureDirectory p) s := by
  unfold Host.ensureDirectory
  refine bind passing (.operate passing (makes p s)) ?_
  split
  · exact .pure passing _
  · exact bind passing (.look passing rfl) (.pure passing _)

theorem ensureDirectories (ps : List Path) (s : Session) :
    Follows R (Trail.host.ensureDirectories ps) (Session.host.ensureDirectories ps) s := by
  induction ps generalizing s with
  | nil => exact .pure passing _
  | cons p outer ih =>
    unfold Host.ensureDirectories
    split
    · exact .pure passing _
    · refine bind passing (ensureDirectory passing makes p s) ?_
      split
      · refine bind passing (ih _) ?_
        split
        · exact ensureDirectory passing makes p _
        · exact .pure passing _
      · exact .pure passing _

end Making

end Follows

end ModularSynth
