import Dicon.MainServer.LiveEntries

/-!
# Clients that vanish

The server as a process. A client may close its connection between any two steps
of the thread that serves it, and its side of a closed connection resets what is
still sent there. `dic_conn_send` calls `send` with flags 0 and `main` does not
touch the disposition of `SIGPIPE`, so a send on a connection that was reset ends
the process. Apart from that a client may vanish at any point, and the entries of
the others stay.
-/

namespace Dicon.MainServer

open Dicon.Framework

/-- The server process, and the connections whose peer has reset them. -/
structure Process where
  server : Server
  reset : ConnId → Bool
  killed : Bool

def Process.start : Process := ⟨.start, fun _ => false, false⟩

/-- A step of a connection, or the arrival of a reset. -/
inductive ProcessStep
  | act (l : ConnId × Action)
  | reset (c : ConnId)
deriving DecidableEq

/-- The step is a `send` on an open descriptor whose connection was reset. A failed
receive leaves a closed one, and a send there only fails. -/
def Process.sigpipe (p : Process) (l : ConnId × Action) : Bool :=
  decide (l.2 = .send) && p.reset l.1 && (p.server.conns l.1).any Handler.sockOpen

def Process.step? (p : Process) (l : ProcessStep) : Option Process :=
  if p.killed then none
  else match l with
  | .reset c =>
      match p.server.conns c with
      | some h =>
          if h.peerClosed then some { p with reset := Function.update p.reset c true } else none
      | none => none
  | .act l => do
      let server ← p.server.step? l
      some (if p.sigpipe l then { p with killed := true } else { p with server := server })

def process : Lts Process ProcessStep where
  init p := p = .start
  step p l q := p.step? l = some q

/-- The process is up, and lists the entries of all connections that were not
cleaned up. -/
structure Survives (p : Process) : Prop where
  up : p.killed = false
  defined : p.server.shared.undefined = false
  entries : ∃ es, p.server.shared.registry.collectInfo = some es ∧
    KeepsLive p.server.shared.history es

/-- The receive of a body stays inside its variable. -/
def BodyFits (s : Server) (l : ConnId × Action) : Prop :=
  ∀ k, l.2 = .recv k → ∀ h head got, s.conns l.1 = some h → h.pc = .recvBody head got →
    got.length + k ≤ reqAnnounceInfoSize

/-- Nothing is sent on a connection that was reset, no body overruns its variable,
and no clean-up takes the entries of other connections along. -/
def Harmless (p : Process) : ProcessStep → Prop
  | .act l => p.sigpipe l = false ∧ BodyFits p.server l ∧ KeepsHead p.server l
  | .reset _ => True

theorem process_cases {p q : Process} {l : ProcessStep} (h : process.step p l q) :
    p.killed = false ∧
      ((∃ c, l = .reset c ∧ q = { p with reset := Function.update p.reset c true }) ∨
        ∃ l' t, l = .act l' ∧ mainServer.step p.server l' t ∧
          q = if p.sigpipe l' then { p with killed := true } else { p with server := t }) := by
  simp only [process, Process.step?] at h
  split at h
  · cases h
  · next hup =>
      refine ⟨Bool.eq_false_iff.mpr hup, ?_⟩
      split at h
      · split at h
        · split at h <;> cases h
          exact Or.inl ⟨_, rfl, rfl⟩
        · cases h
      · rw [Option.bind_eq_bind, Option.bind_eq_some_iff] at h
        obtain ⟨t, ht, hq⟩ := h
        cases hq
        exact Or.inr ⟨_, t, rfl, ht, rfl⟩

/-- A server step leaves the server defined exactly if its receive stays inside its
variable. -/
theorem defined_iff_bodyFits {s t : Server} {l : ConnId × Action} (hinv : Inv s)
    (hdef : s.shared.undefined = false) (h : mainServer.step s l t) :
    t.shared.undefined = false ↔ BodyFits s l := by
  obtain ⟨c, a⟩ := l
  rcases step_cases h with ⟨ip, hc, rfl⟩ | ⟨hd, hd', sh', hc, he, rfl⟩
  · refine iff_of_true hdef ?_
    intro k _ h' head got hc'
    rw [hc] at hc'
    cases hc'
  · constructor
    · rintro hdef' k rfl h' head got hc' hpc
      rw [hc] at hc'
      cases hc'
      cases he with
      | recvHead hpc' =>
          rw [hpc] at hpc'
          cases hpc'
      | recvBody hpc' _ hroom =>
          rw [hpc] at hpc'
          cases hpc'
          exact hroom
      | overrun => cases hdef'
    · intro hfits
      -- the list operations are defined, so only a receive can leave the server undefined
      rcases hinv.undefined_step hc he with hsame | ⟨k, head, got, hk, hpc, _, hlt⟩
      · exact hsame.trans hdef
      · have hroom := hfits k hk hd head got hc hpc
        omega

/-- What harmless steps keep: the process is up, and its server has only made the
steps that `live_entries_kept` is about. -/
structure Unharmed (p : Process) : Prop where
  up : p.killed = false
  defined : p.server.shared.undefined = false
  reachable : (mainServer.restrict KeepsHead).Reachable p.server

theorem Unharmed.inv {p : Process} (h : Unharmed p) : Inv p.server :=
  inv_of_reachable h.reachable.of_restrict

theorem Unharmed.survives {p : Process} (h : Unharmed p) : Survives p :=
  ⟨h.up, h.defined, (liveInReach h.reachable).collect⟩

theorem Unharmed.step {p q : Process} {l : ProcessStep} (hi : Unharmed p) (hok : Harmless p l)
    (h : process.step p l q) : Unharmed q := by
  rcases process_cases h with ⟨_, ⟨c, rfl, rfl⟩ | ⟨l', t, rfl, ht, rfl⟩⟩
  · exact ⟨hi.up, hi.defined, hi.reachable⟩
  · obtain ⟨hquiet, hfits, hkeep⟩ := hok
    rw [hquiet]
    exact ⟨hi.up, (defined_iff_bodyFits hi.inv hi.defined ht).mpr hfits,
      hi.reachable.step ⟨hkeep, ht⟩⟩

theorem unharmed {p : Process} (h : (process.restrict Harmless).Reachable p) : Unharmed p := by
  refine h.invariant ?_ ?_
  · rintro _ rfl
    exact ⟨rfl, rfl, .init rfl⟩
  · intro p l q hi hstep
    exact hi.step hstep.1 hstep.2

/-- Any other step ends the process, leaves its behaviour undefined, or loses the
entry of another connection. -/
theorem harmed {p q : Process} {l : ProcessStep} (hi : Unharmed p) (hnot : ¬ Harmless p l)
    (h : process.step p l q) : ¬ Survives q := by
  intro hs
  rcases process_cases h with ⟨_, ⟨c, rfl, rfl⟩ | ⟨l', t, rfl, ht, rfl⟩⟩
  · exact hnot trivial
  · cases hpipe : p.sigpipe l' with
    | true =>
        have hup := hs.up
        rw [hpipe] at hup
        cases hup
    | false =>
        rw [hpipe] at hs
        have hfits := (defined_iff_bodyFits hi.inv hi.defined ht).mp hs.defined
        have hkeep : ¬ KeepsHead p.server l' := fun hkeep => hnot ⟨hpipe, hfits, hkeep⟩
        have hreach := hi.reachable.of_restrict
        obtain ⟨hempty, e, he, hopen⟩ := lost_of_not_keepsHead hi.inv (closedAreClosing hreach)
          (liveInReach hi.reachable) hkeep ht
        obtain ⟨es, hes, hlive⟩ := hs.entries
        have hnil : es = [] := by
          have hsame : some [] = some es := hempty.symm.trans hes
          exact (Option.some.inj hsame).symm
        subst hnil
        exact absurd (hlive.2 e he hopen) (by simp)

/-- Clients may vanish between any two steps of their threads: as long as nothing
is sent on a connection that its peer has reset, no body overruns its variable and
no clean-up unlinks the first node in front of a live one, the process stays up and
keeps the entries of all connections that were not cleaned up. The first step that
is not so ends that. -/
theorem vanishing_clients {p : Process} (h : (process.restrict Harmless).Reachable p) :
    Survives p ∧ ∀ l q, process.step p l q → (Survives q ↔ Harmless p l) := by
  have hi := unharmed h
  refine ⟨hi.survives, fun l q hstep => ?_⟩
  constructor
  · intro hs
    by_contra hnot
    exact harmed hi hnot hstep hs
  · intro hok
    exact (hi.step hok hstep).survives

/-- The step is harmless, by tests on the state. -/
def harmless (p : Process) : ProcessStep → Bool
  | .act l => !p.sigpipe l && keepsFirst p.server l && (p.server.conns l.1).all fun h =>
      match h.pc, l.2 with
      | .recvBody _ got, .recv k => decide (got.length + k ≤ reqAnnounceInfoSize)
      | _, _ => true
  | .reset _ => true

theorem harmless_of_test (p : Process) (l : ProcessStep) (hok : harmless p l = true) :
    Harmless p l := by
  cases l with
  | reset c => trivial
  | act l =>
      simp only [harmless, Bool.and_eq_true, Bool.not_eq_true'] at hok
      obtain ⟨⟨hpipe, hfirst⟩, hbody⟩ := hok
      refine ⟨hpipe, ?_, keepsHead_of_keepsFirst _ _ hfirst⟩
      intro k hk h head got hc hpc
      simpa [hc, hpc, hk] using hbody

/-- Client `c` connects and asks, up to the first send of the reply. -/
def asks (c : ConnId) : List ProcessStep :=
  [.act (c, .accept ⟨2, 16777343, Vector.replicate 12 0⟩),
    .act (c, .peerSend (ReqHead.bytes ⟨DicMainOperation.getInfo.code, 1, 0⟩)),
    .act (c, .recv 8), .act (c, .recvDone 0), .act (c, .lock), .act (c, .collect),
    .act (c, .peerClose), .act (c, .send)]

/-- A node announces itself; a client asks, closes, and resets its connection when
both parts of the reply are out. -/
def resetBehindReply : List ProcessStep :=
  (announceRun 0 100 4).map .act ++ asks 1 ++
    [.act (1, .send), .reset 1, .act (1, .unlock), .act (1, .recvFail 0), .act (1, .destroy)]

theorem vanishing_clients_run :
    ∃ p, (process.restrict Harmless).Reachable p ∧ p.reset 1 = true ∧ Survives p := by
  have hrun : (Lts.exec Process.step? harmless .start resetBehindReply).any (fun p =>
      p.reset 1) = true := by
    decide +kernel
  obtain ⟨p, hp, htest⟩ := (Option.any_eq_true _ _).mp hrun
  have hreach : (process.restrict Harmless).Reachable p :=
    .of_exec (fun _ _ _ hs => hs) harmless_of_test (.init rfl) hp
  exact ⟨p, hreach, htest, (vanishing_clients hreach).1⟩

/-- The reset arrives between the two parts of the reply. -/
def resetInsideReply : List ProcessStep :=
  (announceRun 0 100 4).map .act ++ asks 1 ++ [.reset 1, .act (1, .send)]

/-- The second send of the reply ends the server. -/
theorem process_killed : ¬ ∀ p, process.Reachable p → Survives p := by
  intro hall
  have hrun : (Lts.exec Process.step? (fun _ _ => true) .start resetInsideReply).any (fun p =>
      p.killed) = true := by
    decide +kernel
  obtain ⟨p, hp, hkilled⟩ := (Option.any_eq_true _ _).mp hrun
  have hreach : (process.restrict fun _ _ => True).Reachable p :=
    .of_exec (fun _ _ _ hs => hs) (fun _ _ _ => trivial) (.init rfl) hp
  have hup := (hall p hreach.of_restrict).up
  rw [hkilled] at hup
  cases hup

end Dicon.MainServer
