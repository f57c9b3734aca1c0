import Dicon.MainServer.History

/-!
# Announce and query are linearizable

The critical section of an announcement or of a query is its linearization
point. Up to the first clean-up, and with complete announcements, the list is
the announcements of the history in the order of their critical sections, and
every reply is that list.

`handle_push_info` acknowledges before it appends. The two are in one critical
section, so when another thread collects the list, every acknowledgement that
was ever sent belongs to an entry that is in it: the acknowledgements of a
connection never outnumber its entries, except by the one whose thread is about
to append and holds the mutex (`AcksCovered`).
-/

namespace Dicon.MainServer

open Dicon.Framework Registry

/-- The steps of a run up to the first disconnection of an announced node, with
complete announcements: an ANNOUNCE_INFO header declares four bytes, they all
arrive, and no thread gets to `remove_info`. -/
def Pc.allows : Pc → Action → Bool
  | _, .remove => false
  | .recvBody .., .recvFail _ => false
  | .recvHead got, .recvDone _ =>
      (ReqHead.ofBytes got).operation ≠ DicMainOperation.announceInfo.code ||
        (ReqHead.ofBytes got).bodySize = 4
  | _, _ => true

def beforeDisconnect (s : Server) (l : ConnId × Action) : Bool :=
  (s.conns l.1).all fun h => h.pc.allows l.2

def BeforeDisconnect (s : Server) (l : ConnId × Action) : Prop :=
  beforeDisconnect s l = true

/-- What `c` announced was received whole: its entry is the address of the
connection and the core count that the four bytes of the body spell. -/
structure Announced.Whole (ip : IpAddr) (e : Announced) : Prop where
  length : e.body.length = reqAnnounceInfoSize
  info : e.info = ⟨ip, rd32 e.body⟩

def Pc.Whole (ip : IpAddr) : Pc → Prop
  | .lockAnnounce head => head.bodySize = 4
  | .recvBody head got => head.bodySize = 4 ∧ got.length ≤ reqAnnounceInfoSize
  | .sendAckHead e | .sendAckBody e | .append e => e.Whole ip
  | _ => True

/-! ## Acknowledgements -/

/-- How many acknowledgements the peer of `c` has received. -/
def acks (c : ConnId) (hist : List Event) : ℕ := hist.count (.ackReceived c)

/-- The acknowledgement is out and its entry is not in the list yet. -/
def Pc.ahead : Pc → ℕ
  | .append _ => 1
  | _ => 0

/-- The acknowledgements that left the server for the peer of `c`, received or
not, are covered by entries. -/
def AcksCovered (hist : List Event) (c : ConnId) (h : Handler) : Prop :=
  acks c hist + h.output.count .ackBody ≤ h.announces + h.pc.ahead

section Effects

variable {c : ConnId} {h h' : Handler} {sh sh' : Shared} {a : Action}

theorem whole_announcement {head : ReqHead} {got : List UInt8} {junk : UInt32}
    (hw : (Pc.recvBody head got).Whole h.ip) (hpc : h.pc = .recvBody head got)
    (hneed : h.need = 0) : (h.announcement c got junk).Whole h.ip := by
  obtain ⟨hsize, hgot⟩ := hw
  have hcount : recvCount head.bodySize = 4 := by
    rw [hsize]
    exact recvCount_of_le (by decide)
  have hlen : got.length = 4 := by
    simp only [Handler.need, hpc, hcount, reqAnnounceInfoSize] at *
    omega
  refine ⟨hlen, ?_⟩
  show (⟨h.ip, announcedCores got junk⟩ : DicNodeInfo) = ⟨h.ip, rd32 got⟩
  rw [announcedCores_full hlen]

/-- Only complete announcements get as far as the list. -/
theorem effect_whole (he : Effect c h sh a h' sh') (hok : h.pc.allows a = true)
    (hw : h.pc.Whole h.ip) : h'.pc.Whole h'.ip := by
  rw [effect_ip he]
  cases he with
  | peerSend | peerClose | peerAck | peerOther => exact hw
  | overrun | appendFault | collectFault | removeFault => exact hw
  | recvHead | append | collect | remove | destroy => trivial
  | recvBody hpc _ hk =>
      rw [hpc] at hw
      refine ⟨hw.1, ?_⟩
      rw [List.length_append, List.length_take]
      omega
  | headFail => cases h.isComputeNode <;> trivial
  -- not among the steps: the body of every announcement arrives
  | bodyFail hpc =>
      rw [hpc] at hok
      cases hok
  | @headDone _ got hpc =>
      rw [hpc] at hok
      show (switchOperation (.ofBytes got)).Whole h.ip
      unfold switchOperation
      split
      · next hop =>
          simp only [Pc.allows, hop, ne_eq, not_true_eq_false, decide_false, Bool.false_or,
            decide_eq_true_eq] at hok
          exact hok
      · split <;> trivial
  | bodyDone hpc hneed =>
      rw [hpc] at hw
      exact whole_announcement hw hpc hneed
  | lock hpc =>
      rcases afterLock_cases hpc with ⟨head, hp, rfl⟩ | ⟨_, rfl⟩ | ⟨_, rfl⟩
      · rw [hp] at hw
        exact ⟨hw, Nat.zero_le _⟩
      · trivial
      · trivial
  | send hpc =>
      rcases afterSend_cases hpc with
        ⟨_, hp, rfl, _⟩ | ⟨_, hp, rfl, _⟩ | ⟨_, _, rfl, _⟩ | ⟨_, _, rfl, _⟩
      · rw [hp] at hw
        exact hw
      · rw [hp] at hw
        exact hw
      · trivial
      · trivial
  | unlock hpc => rcases afterUnlock_cases hpc with ⟨_, rfl⟩ | ⟨_, rfl⟩ <;> trivial

theorem acks_snoc (d : ConnId) (hist : List Event) (ev : Event) :
    acks d (hist ++ [ev]) = acks d hist + if ev = .ackReceived d then 1 else 0 := by
  unfold acks
  rw [List.count_append, List.count_singleton]
  simp only [beq_iff_eq]

/-- A step logs an acknowledgement only on its own connection. -/
theorem effect_acks_other (he : Effect c h sh a h' sh') {d : ConnId} (hd : d ≠ c) :
    acks d sh'.history = acks d sh.history := by
  cases he with
  | peerAck =>
      rw [acks_snoc, if_neg (by simp [Ne.symm hd]), Nat.add_zero]
  | peerSend | append | collect | remove | destroy =>
      rw [acks_snoc, if_neg (by simp), Nat.add_zero]
  | _ => rfl

/-- Of all sends only that of an acknowledgement raises the count, and it leads to
the append. -/
theorem AcksCovered.send (hac : AcksCovered sh.history c h) {segments : List Segment} {pc : Pc}
    (hpc : h.pc.afterSend = some (segments, pc)) :
    AcksCovered sh.history c { h with
      pc := pc, output := h.output ++ if h.sockOpen then segments else [] } := by
  unfold AcksCovered at *
  have hsent : (if h.sockOpen then segments else []).count .ackBody ≤
      segments.count .ackBody := by
    split <;> simp
  simp only [List.count_append]
  -- the second send adds one acknowledgement and leads to `append`, which is one ahead
  rcases afterSend_cases hpc with
    ⟨_, hp, rfl, rfl⟩ | ⟨_, hp, rfl, rfl⟩ | ⟨_, hp, rfl, rfl⟩ | ⟨_, hp, rfl, hno⟩
  · rw [hp] at hac
    simp [Pc.ahead] at hac hsent ⊢
    omega
  · rw [hp] at hac
    simp [Pc.ahead] at hac hsent ⊢
    omega
  · rw [hp] at hac
    simp [Pc.ahead] at hac hsent ⊢
    omega
  · rw [hp] at hac
    rw [List.count_eq_zero_of_not_mem hno] at hsent
    simp only [Pc.ahead] at hac ⊢
    omega

theorem AcksCovered.effect (hac : AcksCovered sh.history c h) (he : Effect c h sh a h' sh') :
    AcksCovered sh'.history c h' := by
  unfold AcksCovered at *
  cases he with
  | peerSend =>
      rw [acks_snoc, if_neg (by simp)]
      exact hac
  | peerClose => exact hac
  | overrun | appendFault | collectFault | removeFault => exact hac
  | peerAck hout =>
      rw [hout, List.count_cons_self] at hac
      rw [acks_snoc, if_pos rfl]
      simp only
      omega
  | peerOther hout hne =>
      rw [hout, List.count_cons_of_ne hne] at hac
      exact hac
  | recvHead hpc | recvBody hpc | bodyFail hpc | bodyDone hpc =>
      rw [hpc] at hac
      exact hac
  | headFail hpc =>
      rw [hpc] at hac
      cases h.isComputeNode <;> exact hac
  | @headDone _ got hpc =>
      rw [hpc] at hac
      rcases switchOperation_cases (.ofBytes got) with hq | hq | hq <;> (rw [hq]; exact hac)
  | lock hpc =>
      rcases afterLock_cases hpc with ⟨_, hp, rfl⟩ | ⟨hp, rfl⟩ | ⟨hp, rfl⟩ <;>
        (rw [hp] at hac; exact hac)
  | unlock hpc =>
      rcases afterUnlock_cases hpc with ⟨hp, rfl⟩ | ⟨hp, rfl⟩ <;> (rw [hp] at hac; exact hac)
  | send hpc => exact AcksCovered.send hac hpc
  | append hpc =>
      rw [hpc] at hac
      rw [acks_snoc, if_neg (by simp)]
      exact hac
  | collect hpc | remove hpc | destroy hpc =>
      rw [hpc] at hac
      rw [acks_snoc, if_neg (by simp)]
      exact hac

end Effects

/-! ## The invariant -/

structure InOrder (s : Server) : Prop where
  defined : s.shared.undefined = false
  list : ∃ vis orph, s.shared.registry.Shape vis orph ∧
    infos s.shared.registry.cell vis = announcements s.shared.history
  whole : ∀ c h, s.conns c = some h → h.pc.Whole h.ip
  source : ∀ e ∈ announcements s.shared.history,
    ∃ h, s.conns e.conn = some h ∧ e.Whole h.ip
  recorded : ∀ c h, s.conns c = some h → ∀ n < h.announces,
    ∃ e ∈ announcements s.shared.history, e.conn = c ∧ e.nth = n
  covered : ∀ c h, s.conns c = some h → AcksCovered s.shared.history c h
  unknown : ∀ c, s.conns c = none → acks c s.shared.history = 0

theorem inOrder_start : InOrder .start where
  defined := rfl
  list := ⟨[], [], Registry.shape_empty, rfl⟩
  whole := by simp [Server.start]
  source := by simp [Server.start, announcements]
  recorded := by simp [Server.start]
  covered := by simp [Server.start]
  unknown := by simp [Server.start, acks]

theorem InOrder.accept {s : Server} (hi : InOrder s) {c : ConnId} {ip : IpAddr}
    (hc : s.conns c = none) :
    InOrder { s with conns := Function.update s.conns c (some (.new ip)) } := by
  refine ⟨hi.defined, hi.list, forall_update hi.whole trivial, ?_,
    forall_update hi.recorded ?_, forall_update hi.covered ?_, ?_⟩
  · intro e he
    obtain ⟨h, hh, hw⟩ := hi.source e he
    have hne : e.conn ≠ c := by
      intro heq
      rw [heq, hc] at hh
      cases hh
    exact ⟨h, (Function.update_of_ne hne _ _).trans hh, hw⟩
  · intro n hn
    exact absurd hn (Nat.not_lt_zero n)
  · show acks c s.shared.history + 0 ≤ 0
    rw [hi.unknown c hc]
  · intro d hd
    by_cases hdc : d = c
    · subst hdc
      exact hi.unknown d hc
    · exact hi.unknown d ((Function.update_of_ne hdc _ _).symm.trans hd)

section Steps

variable {s : Server} {c : ConnId} {hd hd' : Handler} {sh' : Shared} {a : Action}

/-- Nothing undefined happens, and the list follows the history. -/
theorem InOrder.effect_list (hi : InOrder s) (hc : s.conns c = some hd)
    (hok : hd.pc.allows a = true) (he : Effect c hd s.shared a hd' sh') :
    sh'.undefined = false ∧ ∃ vis orph, sh'.registry.Shape vis orph ∧
      infos sh'.registry.cell vis = announcements sh'.history := by
  obtain ⟨vis, orph, hshape, hlist⟩ := hi.list
  constructor
  · cases he with
    | overrun hpc hk hlong =>
        -- four bytes are declared, so at most four are received
        have hw := hi.whole c hd hc
        rw [hpc] at hw
        obtain ⟨hsize, hgot⟩ := hw
        have hcount : recvCount 4 = 4 := recvCount_of_le (by decide)
        have hneed := hk.2.2.1
        simp only [Handler.need, hpc, hsize, hcount, reqAnnounceInfoSize] at *
        omega
    | appendFault hpc hfree happ =>
        rw [hshape.appendInfo_eq hfree] at happ
        cases happ
    | collectFault hpc hes =>
        rw [hshape.collectInfo_eq] at hes
        cases hes
    | removeFault hpc =>
        rw [hpc] at hok
        cases hok
    | _ => exact hi.defined
  · rcases effect_registry he with ⟨hsame, _, _, _, _, evs, hhist, hquiet⟩ |
      ⟨_, e, _, x, _, _, hfree, happ, _, _, _, _, rfl⟩ | ⟨_, hpc, rfl, _, _, _⟩
    · refine ⟨vis, orph, by rw [hsame]; exact hshape, ?_⟩
      rw [hsame, hlist, hhist, announcements_append, announcements_quiet hquiet,
        List.append_nil]
    · have hinfos := appendInfo_infos hshape hfree happ
      obtain ⟨rfl, hshape', _⟩ := appendInfo_shape hshape hfree happ
      refine ⟨_, _, hshape', ?_⟩
      rw [hinfos, hlist]
      exact (announcements_append s.shared.history [.announced e]).symm
    · rw [hpc] at hok
      cases hok

/-- What a step announces comes from its own connection. -/
theorem InOrder.effect_source (hi : InOrder s) (hb : Inv s) (hc : s.conns c = some hd)
    (he : Effect c hd s.shared a hd' sh') :
    ∀ e ∈ announcements sh'.history,
      ∃ h, Function.update s.conns c (some hd') e.conn = some h ∧ e.Whole h.ip := by
  refine forall_announcements he ?_ ?_
  · intro e hmem
    obtain ⟨h, hh, hw⟩ := hi.source e hmem
    by_cases hec : e.conn = c
    · rw [hec, hc] at hh
      cases hh
      rw [hec, Function.update_self]
      exact ⟨hd', rfl, by rw [effect_ip he]; exact hw⟩
    · exact ⟨h, (Function.update_of_ne hec _ _).trans hh, hw⟩
  · intro e hpc
    have hw := hi.whole c hd hc
    rw [hpc] at hw
    rw [(hb.pending c hd hc e (by rw [hpc]; rfl)).1, Function.update_self]
    exact ⟨hd', rfl, by rw [effect_ip he]; exact hw⟩

theorem InOrder.effect_recorded (hi : InOrder s) (hb : Inv s) (hc : s.conns c = some hd)
    (he : Effect c hd s.shared a hd' sh') {n : ℕ} (hn : n < hd'.announces) :
    ∃ e ∈ announcements sh'.history, e.conn = c ∧ e.nth = n := by
  rcases effect_announcements he with ⟨hsame, hann⟩ | ⟨e', hpc, happ, hann⟩
  · rw [hsame]
    rw [hann] at hn
    exact hi.recorded c hd hc n hn
  · rw [happ]
    rw [hann] at hn
    rcases Nat.lt_succ_iff_lt_or_eq.mp hn with hn | rfl
    · obtain ⟨e, hmem, he⟩ := hi.recorded c hd hc n hn
      exact ⟨e, List.mem_append_left _ hmem, he⟩
    · exact ⟨e', by simp, hb.pending c hd hc e' (by rw [hpc]; rfl)⟩

theorem InOrder.step {t : Server} {l : ConnId × Action} (hi : InOrder s) (hb : Inv s)
    (hok : BeforeDisconnect s l) (h : mainServer.step s l t) : InOrder t := by
  obtain ⟨c, a⟩ := l
  rcases step_cases h with ⟨ip, hc, rfl⟩ | ⟨hd, hd', sh', hc, he, rfl⟩
  · exact hi.accept hc
  have hallow : hd.pc.allows a = true := by
    simpa [BeforeDisconnect, beforeDisconnect, hc] using hok
  obtain ⟨hdef, hlist⟩ := hi.effect_list hc hallow he
  refine ⟨hdef, hlist, forall_update hi.whole (effect_whole he hallow (hi.whole c hd hc)),
    hi.effect_source hb hc he, ?_, ?_, ?_⟩
  · intro d x hx n hn
    rcases update_eq_some hx with ⟨rfl, rfl⟩ | ⟨_, hx⟩
    · exact hi.effect_recorded hb hc he hn
    · obtain ⟨e, hmem, hed⟩ := hi.recorded d x hx n hn
      exact ⟨e, effect_announcements_mono he hmem, hed⟩
  · intro d x hx
    rcases update_eq_some hx with ⟨rfl, rfl⟩ | ⟨hne, hx⟩
    · exact (hi.covered d hd hc).effect he
    · unfold AcksCovered
      rw [effect_acks_other he hne]
      exact hi.covered d x hx
  · intro d hd0
    have hne : d ≠ c := by
      rintro rfl
      simp at hd0
    rw [effect_acks_other he hne]
    exact hi.unknown d ((Function.update_of_ne hne _ _).symm.trans hd0)

end Steps

theorem inOrder {s : Server} (h : (mainServer.restrict BeforeDisconnect).Reachable s) :
    InOrder s := by
  apply h.invariant_of
  · rintro _ rfl
    exact inOrder_start
  · intro u l v hr hi hstep
    exact hi.step (inv_of_reachable hr.of_restrict) hstep.1 hstep.2

/-! ## Replies -/

/-- The reply lists the announcements so far, in order and with multiplicity,
among them every one whose acknowledgement was received. -/
def ListsAnnounced (pre : List Event) (es : List Announced) : Prop :=
  es = announcements pre ∧
    ∀ c, ∀ n < acks c pre, ∃ e ∈ es, e.conn = c ∧ e.nth = n

/-- While another thread holds the mutex, no acknowledgement is ahead of its
entry. -/
theorem acked_in_list {s : Server} (hi : InOrder s) (hb : Inv s) {c d : ConnId} {hd : Handler}
    (hc : s.conns c = some hd) (hpc : hd.pc = .collect) {n : ℕ}
    (hn : n < acks d s.shared.history) :
    ∃ e ∈ announcements s.shared.history, e.conn = d ∧ e.nth = n := by
  have howner : s.shared.nodesInfoMut = some c := (hb.mutex c hd hc).mp (by rw [hpc]; rfl)
  cases hx : s.conns d with
  | none =>
      rw [hi.unknown d hx] at hn
      exact absurd hn (Nat.not_lt_zero n)
  | some x =>
      -- a thread that is ahead holds the mutex, but `c` does
      have hahead : x.pc.ahead = 0 := by
        cases hp : x.pc with
        | append e =>
            have hxd := (hb.mutex d x hx).mp (by rw [hp]; rfl)
            rw [howner] at hxd
            cases hxd
            rw [hc] at hx
            cases hx
            rw [hpc] at hp
            cases hp
        | _ => rfl
      have hcov := hi.covered d x hx
      unfold AcksCovered at hcov
      exact hi.recorded d x hx n (by omega)

/-- What is on the wire, or about to be, as a reply was computed as one. -/
def RepliesLogged (s : Server) : Prop :=
  ∀ c h, s.conns c = some h →
    (∀ es, h.pc = .sendInfoHead es ∨ h.pc = .sendInfoBody es →
      .replied c es ∈ s.shared.history) ∧
    ∀ nodes, .infoBody nodes ∈ h.output →
      ∃ es, .replied c es ∈ s.shared.history ∧ nodes = es.map Announced.info

theorem effect_history_mono {c : ConnId} {h h' : Handler} {sh sh' : Shared} {a : Action}
    (he : Effect c h sh a h' sh') {ev : Event} (hev : ev ∈ sh.history) : ev ∈ sh'.history := by
  rcases effect_history he with hsame | ⟨ev', hnew, _⟩
  · rw [hsame]
    exact hev
  · rw [hnew]
    exact List.mem_append_left _ hev

/-- A step puts a reply on the wire only where it holds the computed one. -/
theorem effect_output {c : ConnId} {h h' : Handler} {sh sh' : Shared} {a : Action}
    (he : Effect c h sh a h' sh') {nodes : List DicNodeInfo}
    (hmem : .infoBody nodes ∈ h'.output) :
    .infoBody nodes ∈ h.output ∨
      ∃ es, h.pc = .sendInfoBody es ∧ nodes = es.map Announced.info := by
  cases he with
  | peerAck hout | peerOther hout =>
      rw [hout]
      exact Or.inl (List.mem_cons_of_mem _ hmem)
  | send hpc =>
      rcases List.mem_append.mp hmem with hmem | hnew
      · exact Or.inl hmem
      · split at hnew
        · unfold Pc.afterSend at hpc
          split at hpc <;> cases hpc
          · simp at hnew
          · simp at hnew
          · simp at hnew
          · split at hnew
            · exact Or.inr ⟨_, ‹_›, by simpa using hnew⟩
            · cases hnew
        · cases hnew
  | _ => exact Or.inl hmem

theorem effect_replying {c : ConnId} {h h' : Handler} {sh sh' : Shared} {a : Action}
    (he : Effect c h sh a h' sh') {es : List Announced}
    (hpc' : h'.pc = .sendInfoHead es ∨ h'.pc = .sendInfoBody es) :
    (h.pc = .sendInfoHead es ∨ h.pc = .sendInfoBody es) ∨ .replied c es ∈ sh'.history := by
  cases he with
  | peerSend | peerClose | peerAck | peerOther => exact Or.inl hpc'
  | overrun | appendFault | collectFault | removeFault => exact Or.inl hpc'
  | recvHead | recvBody | bodyFail | bodyDone | append | remove | destroy =>
      rcases hpc' with hpc' | hpc' <;> cases hpc'
  | headFail => cases hcn : h.isComputeNode <;> simp [hcn] at hpc'
  | @headDone _ got =>
      rcases switchOperation_cases (.ofBytes got) with hq | hq | hq <;> simp [hq] at hpc'
  | collect =>
      rcases hpc' with hpc' | hpc' <;> cases hpc'
      exact Or.inr (by simp)
  | lock hpc =>
      rcases afterLock_cases hpc with ⟨_, _, rfl⟩ | ⟨_, rfl⟩ | ⟨_, rfl⟩ <;> simp at hpc'
  | unlock hpc =>
      rcases afterUnlock_cases hpc with ⟨_, rfl⟩ | ⟨_, rfl⟩ <;> simp at hpc'
  | send hpc =>
      rcases afterSend_cases hpc with
        ⟨_, _, rfl, _⟩ | ⟨_, _, rfl, _⟩ | ⟨_, hp, rfl, _⟩ | ⟨_, _, rfl, _⟩
      · simp at hpc'
      · simp at hpc'
      · rcases hpc' with hpc' | hpc' <;> cases hpc'
        exact Or.inl (Or.inl hp)
      · simp at hpc'

theorem repliesLogged {s : Server} (h : mainServer.Reachable s) : RepliesLogged s := by
  apply h.invariant
  · rintro _ rfl c x hx
    cases hx
  · rintro u ⟨c, a⟩ v hi hstep
    rcases step_cases hstep with ⟨ip, hc, rfl⟩ | ⟨hd, hd', sh', hc, he, rfl⟩
    · exact forall_update hi (by simp [Handler.new])
    · intro d x hx
      rcases update_eq_some hx with ⟨rfl, rfl⟩ | ⟨_, hx⟩
      · obtain ⟨hpend, hwire⟩ := hi d hd hc
        constructor
        · intro es hes
          rcases effect_replying he hes with hes | hes
          · exact effect_history_mono he (hpend es hes)
          · exact hes
        · intro nodes hmem
          rcases effect_output he hmem with hmem | ⟨es, hpc, rfl⟩
          · obtain ⟨es, hes, hn⟩ := hwire nodes hmem
            exact ⟨es, effect_history_mono he hes, hn⟩
          · exact ⟨es, effect_history_mono he (hpend es (Or.inr hpc)), rfl⟩
      · obtain ⟨hpend, hwire⟩ := hi d x hx
        refine ⟨fun es hes => effect_history_mono he (hpend es hes), fun nodes hmem => ?_⟩
        obtain ⟨es, hes, hn⟩ := hwire nodes hmem
        exact ⟨es, effect_history_mono he hes, hn⟩

theorem replies_listAnnounced {s : Server}
    (h : (mainServer.restrict BeforeDisconnect).Reachable s) :
    RepliesObey ListsAnnounced s.shared.history := by
  apply h.invariant_of
  · rintro _ rfl
    exact repliesObey_nil _
  · rintro u ⟨c, a⟩ v hr ho hstep
    rcases step_cases hstep.2 with ⟨ip, hc, rfl⟩ | ⟨hd, hd', sh', hc, he, rfl⟩
    · exact ho
    · apply ho.effect he
      intro es hpc hes
      obtain ⟨vis, orph, hshape, hlist⟩ := (inOrder hr).list
      rw [hshape.collectInfo_eq, hlist] at hes
      cases hes
      refine ⟨rfl, fun d n hn => ?_⟩
      exact acked_in_list (inOrder hr) (inv_of_reachable hr.of_restrict) hc hpc hn

theorem acks_mono {c : ConnId} {h₁ pre : List Event} (h : h₁ <+: pre) :
    acks c h₁ ≤ acks c pre := h.sublist.count_le _

/-- In every run up to the first disconnection of an announced node, with
complete announcements: the process does nothing undefined; each entry is the
address of its connection and the core count it announced; each reply is the
list of the announcements whose critical section precedes its own, and lists
every announcement whose acknowledgement was received before a request was sent
that precedes the reply; and each reply on the wire is such a list. -/
theorem announce_query_linearizable {s : Server}
    (h : (mainServer.restrict BeforeDisconnect).Reachable s) :
    s.shared.undefined = false ∧
    (∀ e ∈ announcements s.shared.history, ∃ hd, s.conns e.conn = some hd ∧
      e.body.length = 4 ∧ e.info = ⟨hd.ip, rd32 e.body⟩) ∧
    (∀ pre d es post, s.shared.history = pre ++ .replied d es :: post →
      es = announcements pre) ∧
    (∀ before d bytes between es post,
      s.shared.history = before ++ .requestSent d bytes :: between ++ .replied d es :: post →
      ∀ c, ∀ n < acks c before, ∃ e ∈ es, e.conn = c ∧ e.nth = n) ∧
    (∀ d hd nodes, s.conns d = some hd → .infoBody nodes ∈ hd.output →
      ∃ es, .replied d es ∈ s.shared.history ∧ nodes = es.map Announced.info) := by
  have hi := inOrder h
  have hreply := replies_listAnnounced h
  refine ⟨hi.defined, ?_, ?_, ?_, ?_⟩
  · intro e he
    obtain ⟨hd, hc, hw⟩ := hi.source e he
    exact ⟨hd, hc, hw.length, hw.info⟩
  · intro pre d es post heq
    exact (hreply pre d es post heq).1
  · intro before d bytes between es post heq c n hn
    apply (hreply _ d es post heq).2 c n
    exact Nat.lt_of_lt_of_le hn (acks_mono (List.prefix_append _ _))
  · intro d hd nodes hc hmem
    exact (repliesLogged h.of_restrict d hd hc).2 nodes hmem

/-- A node announces itself and has its acknowledgement; then a client asks. -/
def announceThenQuery : List (ConnId × Action) :=
  announceRun 0 100 4 ++ [(0, .peerRecv), (0, .peerRecv)] ++
    [(1, .accept ⟨2, 16777343, Vector.replicate 12 0⟩),
      (1, .peerSend (ReqHead.bytes ⟨DicMainOperation.getInfo.code, 1, 0⟩)),
      (1, .recv 8), (1, .recvDone 0), (1, .lock), (1, .collect)]

theorem announce_query_linearizable_run :
    ∃ s pre es, (mainServer.restrict BeforeDisconnect).Reachable s ∧
      s.shared.history = pre ++ [.replied 1 es] ∧ .ackReceived 0 ∈ pre ∧
      es = announcements pre ∧ es ≠ [] := by
  have hrun : (Server.start.exec beforeDisconnect announceThenQuery).any (fun s =>
      s.shared.history.getLast?.any (fun ev => match ev with
        | .replied 1 (_ :: _) => true
        | _ => false) &&
        decide (.ackReceived 0 ∈ s.shared.history.dropLast)) = true := by
    decide +kernel
  obtain ⟨s, hs, htest⟩ := (Option.any_eq_true _ _).mp hrun
  rw [Bool.and_eq_true, Option.any_eq_true] at htest
  obtain ⟨⟨ev, hlast, hev⟩, hack⟩ := htest
  have hreach : (mainServer.restrict BeforeDisconnect).Reachable s :=
    reachable_of_exec (fun _ _ hok => hok) hs
  split at hev
  · next e es =>
      have hhist : s.shared.history = s.shared.history.dropLast ++ [.replied 1 (e :: es)] :=
        (List.dropLast_append_getLast? _ hlast).symm
      exact ⟨s, _, e :: es, hreach, hhist, of_decide_eq_true hack,
        (announce_query_linearizable hreach).2.2.1 _ _ _ _ hhist, by simp⟩
  · cases hev

end Dicon.MainServer
