import Xv6Lottery.Library.Run

/-!
Processes that fork and talk through pipes.

A program is a tree of the calls it makes, each with what it does with the answer. A system is a
set of processes, each with what is left of its program and the ends of pipes it holds, and the
contents of the pipes. Which call succeeds, which pid a new process gets and who moves next is
left open.

* `Prog`: programs, over a type `κ` of further calls with an `int` for an answer, a type `δ` of
  bytes and a type `β` of results.
* `Sys.act`: what one call does, by `Sys.onPipe`, `Sys.onFork` and so on. A read waits while the
  pipe is empty and a writer is left; a write waits while the pipe is full and a reader is left,
  with what did not fit.
* `act_pipe`, `act_fork`, …: what a process can do, by the call its program is at.
* `ForkFree`: programs that create no process. A system of these keeps the processes it has
  (`Sys.Barren.act`).
-/

namespace Library

/-! ### Programs -/

/-- One end of a pipe, for reading or for writing. -/
structure PipeEnd where
  pipe : ℕ
  writable : Bool
  deriving DecidableEq, Repr

/-- A program of a process. -/
inductive Prog (κ δ β : Type)
  /-- the result is handed to whoever has started the program -/
  | ret (b : β)
  /-- all ends are closed, one after the other -/
  | exit
  /-- an endless loop -/
  | spin
  /-- the new pipe, if there is one -/
  | pipe (k : Option ℕ → Prog κ δ β)
  /-- 0 in the child, its pid in the parent, -1 if there is none -/
  | fork (k : ℤ → Prog κ δ β)
  | close (e : PipeEnd) (k : Prog κ δ β)
  /-- the bytes read, at most `len` -/
  | read (p len : ℕ) (k : List δ → Prog κ δ β)
  /-- whether all bytes could be written -/
  | write (p : ℕ) (bs : List δ) (k : Bool → Prog κ δ β)
  | getpid (k : ℤ → Prog κ δ β)
  /-- any other call -/
  | call (c : κ) (k : ℤ → Prog κ δ β)

variable {κ δ β : Type}

/-! ### Systems -/

/-- What an observer sees of a step. -/
inductive SysEvent (κ : Type)
  | tau
  | forked (parent child : ℤ)
  | pipeFailed (pid : ℤ)
  | forkFailed (pid : ℤ)
  | called (pid : ℤ) (c : κ) (answer : ℤ)
  deriving DecidableEq, Repr

/-- How a call comes out. -/
inductive Outcome
  | go
  | fails
  | child (pid : ℤ)
  | answers (r : ℤ)
  deriving DecidableEq, Repr

/-- The processes created so far, latest first, with what is left of their programs and the ends
they hold; the contents of the pipes; the number of pipes created. -/
structure Sys (κ δ β : Type) where
  pids : List ℤ
  prog : ℤ → Prog κ δ β
  ends : ℤ → List PipeEnd
  data : ℕ → List δ
  npipes : ℕ

namespace Sys

/-- One process, about to run a program. -/
def start (pid : ℤ) (P : Prog κ δ β) : Sys κ δ β where
  pids := [pid]
  prog := fun _ => P
  ends := fun _ => []
  data := fun _ => []
  npipes := 0

/-- A process goes on with the program `P`. -/
def resume (s : Sys κ δ β) (pid : ℤ) (P : Prog κ δ β) : Sys κ δ β :=
  { s with prog := Function.update s.prog pid P }

def setEnds (s : Sys κ δ β) (pid : ℤ) (es : List PipeEnd) : Sys κ δ β :=
  { s with ends := Function.update s.ends pid es }

def setData (s : Sys κ δ β) (p : ℕ) (bs : List δ) : Sys κ δ β :=
  { s with data := Function.update s.data p bs }

/-- A process that creates a pipe holds both ends of it. -/
def newPipe (s : Sys κ δ β) (pid : ℤ) : Sys κ δ β :=
  { s.setEnds pid (⟨s.npipes, false⟩ :: ⟨s.npipes, true⟩ :: s.ends pid) with
    npipes := s.npipes + 1 }

/-- The new process `child` holds the ends that its parent holds, and runs `P`. -/
def spawn (s : Sys κ δ β) (pid child : ℤ) (P : Prog κ δ β) : Sys κ δ β :=
  { (s.setEnds child (s.ends pid)).resume child P with pids := child :: s.pids }

/-- Some process holds this end. -/
def Open (s : Sys κ δ β) (e : PipeEnd) : Prop := ∃ pid ∈ s.pids, e ∈ s.ends pid

instance (s : Sys κ δ β) (e : PipeEnd) : Decidable (s.Open e) :=
  inferInstanceAs (Decidable (∃ pid ∈ s.pids, _))

/-! What each call does, if it comes out like this. -/

section Calls

variable (s : Sys κ δ β) (pid : ℤ)

def onPipe (k : Option ℕ → Prog κ δ β) : Outcome → Option (SysEvent κ × Sys κ δ β)
  | .go => some (.tau, (s.newPipe pid).resume pid (k (some s.npipes)))
  | .fails => some (.pipeFailed pid, s.resume pid (k none))
  | _ => none

/-- Pids go up to `maxPid`. -/
def onFork (maxPid : ℤ) (k : ℤ → Prog κ δ β) : Outcome → Option (SysEvent κ × Sys κ δ β)
  | .child c =>
      if c ∉ s.pids ∧ 0 < c ∧ c ≤ maxPid then
        some (.forked pid c, (s.spawn pid c (k 0)).resume pid (k c))
      else none
  | .fails => some (.forkFailed pid, s.resume pid (k (-1)))
  | _ => none

def onClose (x : PipeEnd) (k : Prog κ δ β) : Outcome → Option (SysEvent κ × Sys κ δ β)
  | .go => some (.tau, (s.setEnds pid ((s.ends pid).erase x)).resume pid k)
  | _ => none

def onRead (p len : ℕ) (k : List δ → Prog κ δ β) : Outcome → Option (SysEvent κ × Sys κ δ β)
  | .go =>
      if ⟨p, false⟩ ∉ s.ends pid then some (.tau, s.resume pid (k []))
      else if s.data p = [] ∧ s.Open ⟨p, true⟩ then none
      else some (.tau, (s.setData p ((s.data p).drop len)).resume pid (k ((s.data p).take len)))
  | _ => none

/-- A pipe holds `cap` bytes. -/
def onWrite (cap p : ℕ) (bs : List δ) (k : Bool → Prog κ δ β) :
    Outcome → Option (SysEvent κ × Sys κ δ β)
  | .go =>
      if ⟨p, true⟩ ∉ s.ends pid then some (.tau, s.resume pid (k false))
      else
        let room := cap - (s.data p).length
        if bs.length ≤ room then
          some (.tau, (s.setData p (s.data p ++ bs)).resume pid (k true))
        else if 0 < room then
          some (.tau, (s.setData p (s.data p ++ bs.take room)).resume pid
            (.write p (bs.drop room) k))
        else if s.Open ⟨p, false⟩ then none
        else some (.tau, s.resume pid (k false))
  | _ => none

def onGetpid (k : ℤ → Prog κ δ β) : Outcome → Option (SysEvent κ × Sys κ δ β)
  | .go => some (.tau, s.resume pid (k pid))
  | _ => none

def onCall (c : κ) (k : ℤ → Prog κ δ β) : Outcome → Option (SysEvent κ × Sys κ δ β)
  | .answers r => some (.called pid c r, s.resume pid (k r))
  | _ => none

def onExit : Outcome → Option (SysEvent κ × Sys κ δ β)
  | .go =>
      match s.ends pid with
      | [] => none
      | _ :: es => some (.tau, s.setEnds pid es)
  | _ => none

end Calls

/-- What the call does that the program of the process `pid` is at. -/
def act (cap : ℕ) (maxPid : ℤ) (s : Sys κ δ β) (pid : ℤ) (o : Outcome) :
    Option (SysEvent κ × Sys κ δ β) :=
  match s.prog pid with
  | .ret _ => none
  | .spin => none
  | .exit => s.onExit pid o
  | .pipe k => s.onPipe pid k o
  | .fork k => s.onFork pid maxPid k o
  | .close x k => s.onClose pid x k o
  | .read p len k => s.onRead pid p len k o
  | .write p bs k => s.onWrite pid cap p bs k o
  | .getpid k => s.onGetpid pid k o
  | .call c k => s.onCall pid c k o

end Sys

/-- The system as a machine whose actions are the moves of its processes. -/
def sysMachine (κ δ β : Type) (cap : ℕ) (maxPid : ℤ) :
    Guarded (Sys κ δ β) (ℤ × Outcome) (SysEvent κ) where
  Enabled s a := a.1 ∈ s.pids ∧ (s.act cap maxPid a.1 a.2).isSome
  next s a := ((s.act cap maxPid a.1 a.2).map Prod.snd).getD s
  event s a := ((s.act cap maxPid a.1 a.2).map Prod.fst).getD .tau

instance (cap : ℕ) (maxPid : ℤ) (s : Sys κ δ β) (a : ℤ × Outcome) :
    Decidable ((sysMachine κ δ β cap maxPid).Enabled s a) :=
  inferInstanceAs (Decidable (_ ∧ _))

/-- The processes created in a run, in their order. -/
def created : List (SysEvent κ) → List ℤ
  | [] => []
  | .forked _ c :: tr => c :: created tr
  | _ :: tr => created tr

lemma created_append (tr tr' : List (SysEvent κ)) :
    created (tr ++ tr') = created tr ++ created tr' := by
  induction tr with
  | nil => rfl
  | cons e tr ih => cases e <;> simp [created, ih]

lemma created_snoc_of_ne {tr : List (SysEvent κ)} {e : SysEvent κ}
    (h : ∀ q c, e ≠ .forked q c) : created (tr ++ [e]) = created tr := by
  rw [created_append]
  cases e with
  | forked q c => exact absurd rfl (h q c)
  | _ => exact List.append_nil _

/-- A step of the machine is a move of one process. -/
lemma exists_act_of_step {cap : ℕ} {maxPid : ℤ} {ok : Sys κ δ β → ℤ × Outcome → Prop}
    {s s' : Sys κ δ β} {e : SysEvent κ} (h : (sysMachine κ δ β cap maxPid).Step ok s e s') :
    ∃ pid o, pid ∈ s.pids ∧ ok s (pid, o) ∧ s.act cap maxPid pid o = some (e, s') := by
  obtain ⟨⟨pid, o⟩, ⟨hpid, hsome⟩, hok, rfl, rfl⟩ := h
  refine ⟨pid, o, hpid, hok, ?_⟩
  obtain ⟨⟨e, s'⟩, hact⟩ := Option.isSome_iff_exists.mp hsome
  simp [sysMachine, hact]

/-- And a move of one process is a step. -/
lemma step_of_act {cap : ℕ} {maxPid : ℤ} {s s' : Sys κ δ β} {pid : ℤ} {o : Outcome}
    {e : SysEvent κ} {ok : Sys κ δ β → ℤ × Outcome → Prop} (hpid : pid ∈ s.pids)
    (h : s.act cap maxPid pid o = some (e, s')) (hok : ok s (pid, o)) :
    (sysMachine κ δ β cap maxPid).Step ok s e s' :=
  ⟨(pid, o), ⟨hpid, by simp [h]⟩, hok, by simp [sysMachine, h], by simp [sysMachine, h]⟩

/-! ### The fields after an update -/

namespace Sys

section Fields

variable (s : Sys κ δ β) (pid q : ℤ) (p : ℕ) (P : Prog κ δ β) (es : List PipeEnd) (bs : List δ)

@[simp] lemma resume_ends : (s.resume pid P).ends = s.ends := rfl
@[simp] lemma resume_data : (s.resume pid P).data = s.data := rfl
@[simp] lemma resume_prog_self : (s.resume pid P).prog pid = P := Function.update_self ..
@[simp] lemma setEnds_ends_self : (s.setEnds pid es).ends pid = es := Function.update_self ..
@[simp] lemma setData_data_self : (s.setData p bs).data p = bs := Function.update_self ..

@[simp] lemma newPipe_ends_self : (s.newPipe pid).ends pid =
    ⟨s.npipes, false⟩ :: ⟨s.npipes, true⟩ :: s.ends pid := Function.update_self ..
@[simp] lemma spawn_prog_self : (s.spawn pid q P).prog q = P := Function.update_self ..
@[simp] lemma spawn_ends_self : (s.spawn pid q P).ends q = s.ends pid := Function.update_self ..

variable {pid q p}

@[simp] lemma resume_prog_of_ne (h : q ≠ pid) : (s.resume pid P).prog q = s.prog q :=
  Function.update_of_ne h _ _

@[simp] lemma setEnds_ends_of_ne (h : q ≠ pid) : (s.setEnds pid es).ends q = s.ends q :=
  Function.update_of_ne h _ _

@[simp] lemma setData_data_of_ne {p' : ℕ} (h : p' ≠ p) : (s.setData p bs).data p' = s.data p' :=
  Function.update_of_ne h _ _

@[simp] lemma spawn_prog_of_ne {d : ℤ} (h : q ≠ d) : (s.spawn pid d P).prog q = s.prog q :=
  Function.update_of_ne h _ _

@[simp] lemma spawn_ends_of_ne {d : ℤ} (h : q ≠ d) : (s.spawn pid d P).ends q = s.ends q :=
  Function.update_of_ne h _ _

end Fields

/-! ### What a process can do -/

section Act

variable {cap : ℕ} {maxPid : ℤ} {s s' : Sys κ δ β} {pid : ℤ} {o : Outcome} {e : SysEvent κ}

lemma act_ret {b : β} (h : s.prog pid = .ret b) : s.act cap maxPid pid o ≠ some (e, s') := by
  simp [act, h]

lemma act_spin (h : s.prog pid = .spin) : s.act cap maxPid pid o ≠ some (e, s') := by
  simp [act, h]

lemma act_exit (h : s.prog pid = .exit) (hact : s.act cap maxPid pid o = some (e, s')) :
    e = .tau ∧ ∃ es, s' = (s.setEnds pid es).resume pid .exit := by
  have hsame : ∀ es, (s.setEnds pid es).resume pid .exit = s.setEnds pid es := by
    intro es
    rw [resume, ← h]
    exact congrArg (fun prog => { s.setEnds pid es with prog }) (Function.update_eq_self ..)
  cases o <;> simp only [act, h, onExit] at hact <;> try cases hact
  split at hact
  · cases hact
  · cases hact
    exact ⟨rfl, _, (hsame _).symm⟩

lemma act_pipe {k : Option ℕ → Prog κ δ β} (h : s.prog pid = .pipe k)
    (hact : s.act cap maxPid pid o = some (e, s')) :
    (o = .go ∧ e = .tau ∧ s' = (s.newPipe pid).resume pid (k (some s.npipes))) ∨
    (o = .fails ∧ e = .pipeFailed pid ∧ s' = s.resume pid (k none)) := by
  cases o <;> simp only [act, h, onPipe] at hact <;> cases hact
  · exact .inl ⟨rfl, rfl, rfl⟩
  · exact .inr ⟨rfl, rfl, rfl⟩

lemma act_fork {k : ℤ → Prog κ δ β} (h : s.prog pid = .fork k)
    (hact : s.act cap maxPid pid o = some (e, s')) :
    (∃ c, c ∉ s.pids ∧ 0 < c ∧ c ≤ maxPid ∧ o = .child c ∧ e = .forked pid c ∧
      s' = (s.spawn pid c (k 0)).resume pid (k c)) ∨
    (o = .fails ∧ e = .forkFailed pid ∧ s' = s.resume pid (k (-1))) := by
  cases o with
  | go => simp [act, h, onFork] at hact
  | answers r => simp [act, h, onFork] at hact
  | fails =>
      simp only [act, h, onFork] at hact
      cases hact
      exact .inr ⟨rfl, rfl, rfl⟩
  | child c =>
      simp only [act, h, onFork] at hact
      split_ifs at hact with hc
      cases hact
      exact .inl ⟨c, hc.1, hc.2.1, hc.2.2, rfl, rfl, rfl⟩

lemma act_close {x : PipeEnd} {k : Prog κ δ β} (h : s.prog pid = .close x k)
    (hact : s.act cap maxPid pid o = some (e, s')) :
    e = .tau ∧ s' = (s.setEnds pid ((s.ends pid).erase x)).resume pid k := by
  cases o <;> simp only [act, h, onClose] at hact <;> cases hact
  exact ⟨rfl, rfl⟩

/-- Whatever it gets, a read changes at most the contents of its pipe. -/
lemma act_read_cases {p len : ℕ} {k : List δ → Prog κ δ β} (h : s.prog pid = .read p len k)
    (hact : s.act cap maxPid pid o = some (e, s')) :
    e = .tau ∧ ∃ bs bs', s' = (s.setData p bs).resume pid (k bs') := by
  have hsame : s.setData p (s.data p) = s := by rw [setData, Function.update_eq_self]
  cases o <;> simp only [act, h, onRead] at hact <;> try cases hact
  split_ifs at hact <;> cases hact
  · exact ⟨rfl, _, _, rfl⟩
  · exact ⟨rfl, s.data p, [], by rw [hsame]⟩

/-- So does a write, which may have to go on with the rest of its bytes. -/
lemma act_write_cases {p : ℕ} {bs : List δ} {k : Bool → Prog κ δ β}
    (h : s.prog pid = .write p bs k) (hact : s.act cap maxPid pid o = some (e, s')) :
    e = .tau ∧ ∃ bs' P, s' = (s.setData p bs').resume pid P ∧
      ((∃ b, P = k b) ∨ ∃ rest, P = .write p rest k) := by
  have hsame : s.setData p (s.data p) = s := by rw [setData, Function.update_eq_self]
  cases o <;> simp only [act, h, onWrite] at hact <;> try cases hact
  split_ifs at hact <;> cases hact
  · exact ⟨rfl, _, _, rfl, .inl ⟨true, rfl⟩⟩
  · exact ⟨rfl, _, _, rfl, .inr ⟨_, rfl⟩⟩
  · exact ⟨rfl, s.data p, _, by rw [hsame], .inl ⟨false, rfl⟩⟩
  · exact ⟨rfl, s.data p, _, by rw [hsame], .inl ⟨false, rfl⟩⟩

/-- A read from a pipe that is held and has a writer left takes the first bytes there are. -/
lemma act_read {p len : ℕ} {k : List δ → Prog κ δ β} (h : s.prog pid = .read p len k)
    (hheld : ⟨p, false⟩ ∈ s.ends pid) (hopen : s.Open ⟨p, true⟩)
    (hact : s.act cap maxPid pid o = some (e, s')) :
    e = .tau ∧ s.data p ≠ [] ∧
      s' = (s.setData p ((s.data p).drop len)).resume pid (k ((s.data p).take len)) := by
  cases o <;> simp only [act, h, onRead] at hact <;> try cases hact
  rw [if_neg (not_not.mpr hheld)] at hact
  split_ifs at hact with hempty
  cases hact
  exact ⟨rfl, fun hdata => hempty ⟨hdata, hopen⟩, rfl⟩

/-- A write to a pipe that is held and has a reader left, if the room is nothing or enough. -/
lemma act_write {p : ℕ} {bs : List δ} {k : Bool → Prog κ δ β} (h : s.prog pid = .write p bs k)
    (hheld : ⟨p, true⟩ ∈ s.ends pid) (hopen : s.Open ⟨p, false⟩)
    (hroom : bs.length ≤ cap - (s.data p).length ∨ cap ≤ (s.data p).length)
    (hact : s.act cap maxPid pid o = some (e, s')) :
    e = .tau ∧ s' = (s.setData p (s.data p ++ bs)).resume pid (k true) := by
  cases o <;> simp only [act, h, onWrite] at hact <;> try cases hact
  rw [if_neg (not_not.mpr hheld)] at hact
  split_ifs at hact with hfits hsome
  · cases hact
    exact ⟨rfl, rfl⟩
  · omega

lemma act_getpid {k : ℤ → Prog κ δ β} (h : s.prog pid = .getpid k)
    (hact : s.act cap maxPid pid o = some (e, s')) :
    e = .tau ∧ s' = s.resume pid (k pid) := by
  cases o <;> simp only [act, h, onGetpid] at hact <;> cases hact
  exact ⟨rfl, rfl⟩

lemma act_call {c : κ} {k : ℤ → Prog κ δ β} (h : s.prog pid = .call c k)
    (hact : s.act cap maxPid pid o = some (e, s')) :
    ∃ r, o = .answers r ∧ e = .called pid c r ∧ s' = s.resume pid (k r) := by
  cases o <;> simp only [act, h, onCall] at hact <;> cases hact
  exact ⟨_, rfl, rfl, rfl⟩

/-- The events of a process name it, and no process is ever forgotten. -/
lemma act_event (hact : s.act cap maxPid pid o = some (e, s')) :
    (e = .tau ∨ (∃ d, e = .forked pid d) ∨ e = .pipeFailed pid ∨ e = .forkFailed pid ∨
      ∃ c r, e = .called pid c r) ∧ s.pids ⊆ s'.pids := by
  cases hP : s.prog pid with
  | ret b => exact absurd hact (act_ret hP)
  | spin => exact absurd hact (act_spin hP)
  | exit =>
      obtain ⟨rfl, es, rfl⟩ := act_exit hP hact
      exact ⟨.inl rfl, List.Subset.refl _⟩
  | pipe k =>
      rcases act_pipe hP hact with ⟨-, rfl, rfl⟩ | ⟨-, rfl, rfl⟩
      · exact ⟨.inl rfl, List.Subset.refl _⟩
      · exact ⟨.inr (.inr (.inl rfl)), List.Subset.refl _⟩
  | fork k =>
      rcases act_fork hP hact with ⟨d, -, -, -, -, rfl, rfl⟩ | ⟨-, rfl, rfl⟩
      · exact ⟨.inr (.inl ⟨d, rfl⟩), List.subset_cons_self _ _⟩
      · exact ⟨.inr (.inr (.inr (.inl rfl))), List.Subset.refl _⟩
  | close x k =>
      obtain ⟨rfl, rfl⟩ := act_close hP hact
      exact ⟨.inl rfl, List.Subset.refl _⟩
  | read p len k =>
      obtain ⟨rfl, bs, bs', rfl⟩ := act_read_cases hP hact
      exact ⟨.inl rfl, List.Subset.refl _⟩
  | write p bs k =>
      obtain ⟨rfl, bs', P, rfl, -⟩ := act_write_cases hP hact
      exact ⟨.inl rfl, List.Subset.refl _⟩
  | getpid k =>
      obtain ⟨rfl, rfl⟩ := act_getpid hP hact
      exact ⟨.inl rfl, List.Subset.refl _⟩
  | call c k =>
      obtain ⟨r, -, rfl, rfl⟩ := act_call hP hact
      exact ⟨.inr (.inr (.inr (.inr ⟨c, r, rfl⟩))), List.Subset.refl _⟩

end Act

end Sys

/-! ### Programs that create no process -/

/-- The program makes no call of `fork`, whatever its other calls answer, and its result, if it
has one, satisfies `Q`. -/
inductive ForkFree (Q : β → Prop) : Prog κ δ β → Prop
  | ret {b : β} (h : Q b) : ForkFree Q (.ret b)
  | exit : ForkFree Q .exit
  | spin : ForkFree Q .spin
  | pipe {k : Option ℕ → Prog κ δ β} (h : ∀ x, ForkFree Q (k x)) : ForkFree Q (.pipe k)
  | close (e : PipeEnd) {k : Prog κ δ β} (h : ForkFree Q k) : ForkFree Q (.close e k)
  | read (p len : ℕ) {k : List δ → Prog κ δ β} (h : ∀ bs, ForkFree Q (k bs)) :
      ForkFree Q (.read p len k)
  | write (p : ℕ) (bs : List δ) {k : Bool → Prog κ δ β} (h : ∀ b, ForkFree Q (k b)) :
      ForkFree Q (.write p bs k)
  | getpid {k : ℤ → Prog κ δ β} (h : ∀ x, ForkFree Q (k x)) : ForkFree Q (.getpid k)
  | call (c : κ) {k : ℤ → Prog κ δ β} (h : ∀ r, ForkFree Q (k r)) : ForkFree Q (.call c k)

namespace Sys

/-- No process of the system creates another, and what they return satisfies `Q`. -/
def Barren (Q : β → Prop) (s : Sys κ δ β) : Prop := ∀ pid ∈ s.pids, ForkFree Q (s.prog pid)

variable {Q : β → Prop}

/-- The process that moves goes on with a program that creates no process. -/
lemma Barren.resume {s : Sys κ δ β} (h : s.Barren Q) {pid : ℤ} {P : Prog κ δ β}
    (hP : ForkFree Q P) : (s.resume pid P).Barren Q := by
  intro q hq
  by_cases hqp : q = pid
  · subst hqp
    rwa [resume_prog_self]
  · rw [resume_prog_of_ne _ _ hqp]
    exact h q hq

/-- A system that creates no process keeps the processes it has. -/
lemma Barren.act {cap : ℕ} {maxPid : ℤ} {s s' : Sys κ δ β} {pid : ℤ} {o : Outcome}
    {e : SysEvent κ} (h : s.Barren Q) (hpid : pid ∈ s.pids)
    (hact : s.act cap maxPid pid o = some (e, s')) :
    s'.Barren Q ∧ s'.pids = s.pids ∧ ∀ q c, e ≠ .forked q c := by
  have hfree := h pid hpid
  generalize hP : s.prog pid = P at hfree
  -- an update of ends or contents changes no program
  have hends : ∀ es, (s.setEnds pid es).Barren Q := fun _ => h
  have hdata : ∀ p bs, (s.setData p bs).Barren Q := fun _ _ => h
  cases hfree with
  | ret => exact absurd hact (act_ret hP)
  | spin => exact absurd hact (act_spin hP)
  | exit =>
      obtain ⟨rfl, es, rfl⟩ := act_exit hP hact
      exact ⟨(hends es).resume .exit, rfl, by simp⟩
  | pipe hk =>
      rcases act_pipe hP hact with ⟨-, rfl, rfl⟩ | ⟨-, rfl, rfl⟩
      · exact ⟨Barren.resume (s := s.newPipe pid) h (hk _), rfl, by simp⟩
      · exact ⟨h.resume (hk _), rfl, by simp⟩
  | close x hk =>
      obtain ⟨rfl, rfl⟩ := act_close hP hact
      exact ⟨(hends _).resume hk, rfl, by simp⟩
  | getpid hk =>
      obtain ⟨rfl, rfl⟩ := act_getpid hP hact
      exact ⟨h.resume (hk _), rfl, by simp⟩
  | call c hk =>
      obtain ⟨r, -, rfl, rfl⟩ := act_call hP hact
      exact ⟨h.resume (hk r), rfl, by simp⟩
  | read p len hk =>
      obtain ⟨rfl, bs, bs', rfl⟩ := act_read_cases hP hact
      exact ⟨(hdata p bs).resume (hk bs'), rfl, by simp⟩
  | write p bs hk =>
      obtain ⟨rfl, bs', P, rfl, ⟨b, rfl⟩ | ⟨rest, rfl⟩⟩ := act_write_cases hP hact
      · exact ⟨(hdata p bs').resume (hk b), rfl, by simp⟩
      · exact ⟨(hdata p bs').resume (.write p rest hk), rfl, by simp⟩

end Sys

end Library
