import Speculos.Exchange.Enumeration

/-!
# Whole sessions

The emulator and the device take turns in any order. Whatever the order, a
session ends, and at its end the application has received every command of the
client and the client every response, each once and in order; before, they have
received the first ones. No packet makes either end raise or fail.
-/

namespace Speculos.Exchange

open Lib Protocol Transport Usbd Application
open Emulator (usb outEvent Plain)

variable {σ : Type} (handle : σ → Bytes → σ × Bytes)

/-- What the application answers commands with, from one state on. -/
def answers : σ → List Bytes → List Bytes
  | _, [] => []
  | s, command :: commands =>
    (handle s command).2 :: answers (handle s command).1 commands

variable {handle} {a : Application σ} {s : σ} {h : LedgerHid} {received : List Bytes}

-- ---------------------------------------------------------------------------
-- One order of turns
-- ---------------------------------------------------------------------------

/-- Everybody is done. -/
structure Done (handle : σ → Bytes → σ × Bytes) (s : σ) (commands responses received : List Bytes)
    (n : System σ) : Prop where
  quiet : Quiet (Network.step Emulator.party (Application.party handle)) n
  responses : n.left.responses = responses ++ answers handle s commands
  received : n.right.received = received ++ commands
  error : n.left.error = none
  failed : n.right.failed = false

theorem leads_done {commands : List Bytes} (hanswers : Answers handle) (responses : List Bytes)
    (hplain : ∀ command ∈ commands, Plain command) (ha : Serves a h s received) (hh : Awaits h) :
    ∃ n, Leads handle
        ⟨⟨usb .configured [] (.reset 0), 0, commands, false, responses, none⟩, a, [], []⟩ n ∧
      Done handle s commands responses received n := by
  induction commands generalizing a h s received responses with
  | nil =>
    have hact : Emulator.act ⟨usb .configured [] (.reset 0), 0, [], false, responses, none⟩ =
        none :=
      Emulator.act_waiting (.inr (.inr rfl))
    refine ⟨_, .refl _, Network.quiet_of_waiting hact rfl rfl rfl, ?_, ?_, rfl, ha.failed⟩
    · exact (List.append_nil _).symm
    · rw [ha.received, List.append_nil]
  | cons command commands ih =>
    obtain ⟨hcommand, hlater⟩ := List.forall_mem_cons.mp hplain
    obtain ⟨packets, hcut, hact⟩ := Emulator.act_configured (p := .reset 0) command hcommand
    obtain ⟨a', h', hexchange, ha', hh'⟩ :=
      leads_exchange commands responses hanswers ha hh hcommand hcut
    obtain ⟨n, hleads, hdone⟩ := ih (responses ++ [(handle s command).2]) hlater ha' hh'
    have hfirst := Network.reaches_left (Q := Application.party handle)
      (Emulator.consumes_act (hact commands responses)) a [] []
    refine ⟨n, (hfirst.trans hexchange).trans hleads, hdone.quiet, ?_, ?_, hdone.error,
      hdone.failed⟩
    · rw [hdone.responses, List.append_assoc]
      rfl
    · rw [hdone.received, List.append_assoc]
      rfl

theorem start_leads_done (hanswers : Answers handle) (info : DescInfo) (s : σ) {delay : Nat}
    {commands : List Bytes} (hdelay : delay ≤ 8) (hplain : ∀ command ∈ commands, Plain command) :
    ∃ n, Leads handle (System.start info s delay commands) n ∧ Done handle s commands [] [] n := by
  obtain ⟨e, a, h, said, hleads, he, ha, hh⟩ := leads_enumeration handle info s hdelay hplain
  cases he with
  | idle hcommands =>
    subst hcommands
    obtain ⟨n, hdone, hn⟩ := leads_done hanswers [] hplain ha hh
    exact ⟨n, hleads.trans hdone, hn⟩
  | @sent command later packets hcommands hcut =>
    subst hcommands
    obtain ⟨hcommand, hlater⟩ := List.forall_mem_cons.mp hplain
    obtain ⟨a', h', hexchange, ha', hh'⟩ :=
      leads_exchange later [] hanswers ha hh hcommand hcut
    obtain ⟨n, hdone, hn⟩ := leads_done hanswers _ hlater ha' hh'
    exact ⟨n, (hleads.trans hexchange).trans hdone, hn.quiet, hn.responses, hn.received, hn.error,
      hn.failed⟩

-- ---------------------------------------------------------------------------
-- Any order
-- ---------------------------------------------------------------------------

/-- What has come through stays, as do failures. -/
structure Grows (n m : System σ) : Prop where
  responses : n.left.responses <+: m.left.responses
  received : n.right.received <+: m.right.received
  error : m.left.error = none → n.left.error = none
  failed : m.right.failed = false → n.right.failed = false

theorem responses_after {α : Type} (e : Emulator)
    (r : EStateM.Result PyError USBTransport α) : (e.after r).1.responses = e.responses := by
  cases r <;> rfl

theorem responses_toApp (e : Emulator) (command : Bytes) :
    (e.toApp command).1.responses = e.responses := by
  unfold Emulator.toApp
  split
  · dsimp only
    split <;> rfl
  · exact responses_after e _

theorem act_grows {e e' : Emulator} {said : List Bytes} (h : e.act = some (e', said)) :
    e'.responses = e.responses ∧ e.error = none := by
  unfold Emulator.act at h
  split at h
  · rename_i hready
    split at h
    · cases h
    · obtain rfl := congrArg Prod.fst (Option.some.inj h)
      exact ⟨responses_toApp _ _, hready.1⟩
  · cases h

theorem responses_forward (e : Emulator)
    (r : EStateM.Result PyError USBTransport (Option Bytes)) :
    e.responses <+: (e.forward r).responses := by
  unfold Emulator.forward
  split
  · exact List.prefix_append _ _
  · exact List.prefix_refl _

theorem responses_canRead (e : Emulator) (packet : Bytes) :
    e.responses <+: (e.canRead packet).1.responses := by
  unfold Emulator.canRead
  split
  · split
    · exact (responses_after _ _).symm ▸ List.prefix_refl _
    · split
      · dsimp only
        rw [responses_after]
        exact responses_forward _ _
      · exact List.prefix_refl _
  · exact List.prefix_refl _

theorem recv_grows (e : Emulator) (packet : Bytes) :
    e.responses <+: (e.recv packet).1.responses ∧
      ((e.recv packet).1.error = none → e.error = none) := by
  unfold Emulator.recv
  split
  · rename_i herror
    exact ⟨responses_canRead { e with delay := e.delay - 1 } packet, fun _ => herror⟩
  · exact ⟨List.prefix_refl _, id⟩

theorem received_give (a : Application σ) (data : Bytes) :
    a.received <+: (a.give handle data).received := by
  unfold Application.give
  split
  · split
    · exact List.prefix_append _ _
    · exact List.prefix_refl _
  · exact List.prefix_refl _

theorem received_take (a : Application σ) (status : Int) (data : Bytes) :
    a.received <+: (a.take handle status data).received := by
  unfold Application.take
  split
  · split
    · exact received_give a data
    · exact List.prefix_refl _
  · exact List.prefix_refl _

theorem received_rxEvt {a' : Application σ} {packet data : Bytes} {status : Int}
    (h : a.rxEvt packet = some (a', status, data)) : a'.received = a.received := by
  unfold Application.rxEvt at h
  dsimp only at h
  split at h
  · obtain ⟨x, -, hx⟩ := Option.map_eq_some_iff.mp h
    cases hx
    rfl
  · cases h
    rfl

theorem recv_received (handle : σ → Bytes → σ × Bytes) (a : Application σ) (packet : Bytes) :
    a.received <+: (a.recv handle packet).1.received ∧
      ((a.recv handle packet).1.failed = false → a.failed = false) := by
  unfold Application.recv
  split
  · exact ⟨List.prefix_refl _, id⟩
  · rename_i hfailed
    refine ⟨?_, fun _ => eq_false_of_ne_true hfailed⟩
    split
    · exact List.prefix_refl _
    · rename_i hevent
      rw [← received_rxEvt hevent]
      exact received_take _ _ _

theorem step_grows {n m : System σ} {side : Side}
    (h : Network.step Emulator.party (Application.party handle) n side = some m) : Grows n m := by
  cases side with
  | left =>
    obtain ⟨e, rest, said, hturn, rfl⟩ := Network.step_left_cases h
    unfold Party.turn at hturn
    split at hturn
    · rename_i hact
      cases hturn
      obtain ⟨hresponses, herror⟩ := act_grows hact
      exact ⟨hresponses ▸ List.prefix_refl _, List.prefix_refl _, fun _ => herror, id⟩
    · split at hturn
      · cases hturn
      · cases hturn
        obtain ⟨hresponses, herror⟩ := recv_grows n.left _
        exact ⟨hresponses, List.prefix_refl _, herror, id⟩
  | right =>
    obtain ⟨a, rest, said, hturn, rfl⟩ := Network.step_right_cases h
    unfold Party.turn at hturn
    dsimp only [Application.party] at hturn
    split at hturn
    · cases hturn
    · cases hturn
      obtain ⟨hreceived, hfailed⟩ := recv_received handle n.right _
      exact ⟨List.prefix_refl _, hreceived, id, hfailed⟩

theorem exec_grows {n m : System σ} {sides : List Side}
    (h : exec (Network.step Emulator.party (Application.party handle)) n sides = some m) :
    Grows n m := by
  induction sides generalizing n with
  | nil =>
    cases exec_nil h
    exact ⟨List.prefix_refl _, List.prefix_refl _, id, id⟩
  | cons side sides ih =>
    obtain ⟨v, hv, h⟩ := exec_cons h
    obtain ⟨hresponses, hreceived, herror, hfailed⟩ := step_grows hv
    obtain ⟨hresponses', hreceived', herror', hfailed'⟩ := ih h
    exact ⟨hresponses.trans hresponses', hreceived.trans hreceived', herror ∘ herror',
      hfailed ∘ hfailed'⟩

/-- Of the commands of a client that waits for each response, and that begins at any
time of the enumeration, none is lost or doubled, whatever the order of turns:
the runs have a bound, nothing fails in them, and one that cannot go on has delivered
every command and every response. -/
theorem session_delivers (handle : σ → Bytes → σ × Bytes) (info : DescInfo) (s : σ) (delay : Nat)
    (commands : List Bytes) (hdelay : delay ≤ 8) (hplain : ∀ command ∈ commands, Plain command)
    (hanswers : Answers handle) :
    ∃ bound, ∀ sides n,
      exec (Network.step Emulator.party (Application.party handle))
        (System.start info s delay commands) sides = some n →
      sides.length ≤ bound ∧ n.left.error = none ∧ n.right.failed = false ∧
        n.right.received <+: commands ∧ n.left.responses <+: answers handle s commands ∧
        (Quiet (Network.step Emulator.party (Application.party handle)) n →
          n.right.received = commands ∧ n.left.responses = answers handle s commands) := by
  obtain ⟨m, ⟨as, has⟩, hm⟩ := start_leads_done hanswers info s hdelay hplain
  have hdiamond := Network.diamond Emulator.party (Application.party handle)
  refine ⟨as.length, fun sides n h => ?_⟩
  obtain ⟨bs, hbs, -⟩ := hdiamond.continues hm.quiet has h
  have hgrows := exec_grows hbs
  refine ⟨hdiamond.length_le hm.quiet has h, hgrows.error hm.error, hgrows.failed hm.failed, ?_, ?_,
    fun hquiet => ?_⟩
  · simpa [hm.received] using hgrows.received
  · simpa [hm.responses] using hgrows.responses
  · rw [hdiamond.rest_unique hm.quiet hquiet has h]
    exact ⟨hm.received, hm.responses⟩

/-- An application that answers every command with its number, and a client that sends
two of them. -/
theorem session_delivers_two :
    ∃ bound, ∀ sides n,
      exec (Network.step Emulator.party
          (Application.party fun k (_ : Bytes) => (k + 1, be16 k)))
        (System.start ⟨[], 0, 0, 0, false⟩ 0 3 [[0xe0, 0x01], List.replicate 60 7]) sides = some n →
      sides.length ≤ bound ∧ n.left.error = none ∧ n.right.failed = false ∧
        n.right.received <+: [[0xe0, 0x01], List.replicate 60 7] ∧
        n.left.responses <+: [[0, 0], [0, 1]] ∧
        (Quiet (Network.step Emulator.party
            (Application.party fun k (_ : Bytes) => (k + 1, be16 k))) n →
          n.right.received = [[0xe0, 0x01], List.replicate 60 7] ∧
            n.left.responses = [[0, 0], [0, 1]]) :=
  session_delivers (fun k _ => (k + 1, be16 k)) ⟨[], 0, 0, 0, false⟩ 0 3
    [[0xe0, 0x01], List.replicate 60 7] (by decide)
    (by decide) fun _ _ => ⟨(by decide : 1 ≤ 2), (by decide : 2 ≤ 65535)⟩

end Speculos.Exchange
