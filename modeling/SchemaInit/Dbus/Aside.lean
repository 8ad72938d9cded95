/-
# `SchemaInit.Dbus.Aside` — what the broker does beside reloads and activations

The live reload (`SchemaInit.Dbus.Reload`) has its own part of the broker's
state: `g_rl`, the policy and the activation table, and the settings it looks at.
Everything else the broker does leaves this part alone.  Nor does it hold a call
for a service that is still to come up, but for the two functions that are there
to do so, and these hold it for the sender of the message they handle.  `Aside`
says both of one function after the other.
-/
import SchemaInit.Dbus.LedgerStep

namespace SchemaInit.Dbus

namespace Broker

variable {new : ConnId → Prop}
variable (env : Env) (b : Broker) (fds : List Int) (id : ConnId)

/-- The part of the reload is as it was, and no call is held but of those who had one held before,
or are `new`. -/
structure Aside (new : ConnId → Prop) (b b' : Broker) : Prop where
  reload : b'.reload = b.reload
  policy : b'.policy = b.policy
  svctab : b'.svctab = b.svctab
  systemBus : b'.systemBus = b.systemBus
  dissolves : b'.dissolves = b.dissolves
  draining : b'.draining = b.draining
  held : ∀ m ∈ allHeld b'.acts, m ∈ allHeld b.acts ∨ new m.callerId

theorem Aside.of_same {b b' : Broker}
    (h : (b'.reload, b'.policy, b'.svctab, b'.systemBus, b'.dissolves, b'.draining, b'.acts) =
      (b.reload, b.policy, b.svctab, b.systemBus, b.dissolves, b.draining, b.acts)) : Aside new b b' := by
  simp only [Prod.mk.injEq] at h
  obtain ⟨hreload, hpolicy, hsvctab, hsystem, hdissolves, hdraining, hacts⟩ := h
  exact ⟨hreload, hpolicy, hsvctab, hsystem, hdissolves, hdraining, fun _ hm => .inl (hacts ▸ hm)⟩

theorem Aside.refl : Aside new b b := .of_same rfl

theorem Aside.trans {b b' b'' : Broker} (h : Aside new b b') (h' : Aside new b' b'') : Aside new b b'' where
  reload := h'.reload.trans h.reload
  policy := h'.policy.trans h.policy
  svctab := h'.svctab.trans h.svctab
  systemBus := h'.systemBus.trans h.systemBus
  dissolves := h'.dissolves.trans h.dissolves
  draining := h'.draining.trans h.draining
  held := fun m hm => (h'.held m hm).elim (h.held m) .inr

theorem aside_foldl {α : Type} {f : Broker → α → Broker} (h : ∀ b x, Aside new b (f b x)) (b : Broker) (l : List α) :
    Aside new b (l.foldl f b) :=
  l.foldlRecOn f (.refl b) fun u hu x _ => hu.trans (h u x)

/-! ## Descriptors and queues -/

theorem aside_closeFds : Aside new b (b.closeFds fds) := by
  refine aside_foldl (fun b fd => ?_) b fds
  unfold closeFd
  split
  · exact Aside.refl b
  · split
    · exact .of_same rfl
    · exact .of_same rfl

theorem aside_closeFd (fd : Int) : Aside new b (b.closeFd fd) := aside_closeFds b [fd]

theorem aside_allocFd (file : Nat) : Aside new b (b.allocFd file).1 := by
  unfold allocFd
  split
  · exact Aside.refl b
  · exact .of_same rfl

theorem aside_openFd : Aside new b b.openFd.1 := by
  have hfile : Aside new b { b with nextFile := b.nextFile + 1 } := .of_same rfl
  exact hfile.trans (aside_allocFd _ _)

theorem aside_openFds (n : Nat) : Aside new b (b.openFds n).1 := by
  induction n generalizing b with
  | zero => exact Aside.refl b
  | succ n ih => exact (aside_openFd b).trans (ih _)

theorem aside_dupFds : Aside new b (b.dupFds fds).1 := by
  induction fds generalizing b with
  | nil => exact Aside.refl b
  | cons fd fds ih =>
    have hone : Aside new b (b.dupFd fd).1 := by
      unfold dupFd
      split
      · exact Aside.refl b
      · exact aside_allocFd b _
    exact hone.trans (ih _)

theorem aside_modConn (f : Conn → Conn) : Aside new b (b.modConn id f) :=
  .of_same rfl

theorem aside_enqueue (bytes : Bytes) (fds : List Int) : Aside new b (b.enqueue id bytes fds) := by
  unfold enqueue
  split
  · exact Aside.refl b
  · split
    · exact (aside_modConn b id _).trans (aside_closeFds _ _)
    · exact aside_modConn b id _

theorem Talk1.aside {b b' : Broker} (h : Talk1 b b') : Aside new b b' := by
  cases h with
  | serial s d => exact .of_same rfl
  | enqueue id bytes => exact aside_enqueue b id bytes []
  | copy id bytes fds c hc hfds => exact (aside_dupFds b fds).trans (aside_enqueue _ id bytes _)
  | out id g => exact aside_modConn b id _
  | reports rs => exact .of_same rfl
  | socket hfd =>
    split
    · exact aside_openFd b
    · exact (aside_openFd b).trans (.of_same rfl)

theorem Talk.aside {b b' : Broker} (h : Talk b b') : Aside new b b' := by
  induction h with
  | refl => exact Aside.refl b
  | tail _ hstep ih => exact ih.trans hstep.aside

theorem Haul1.aside {b b' : Broker} (h : Haul1 new b b') : Aside new b b' := by
  cases h with
  | talk h => exact h.aside
  | close fds => exact aside_closeFds b fds
  | dup fds => exact aside_dupFds b fds
  | send id bytes fds copies =>
    exact (aside_enqueue b id bytes fds).trans (.of_same rfl)
  | pending id g hg => exact aside_modConn b id _
  | replies replies => exact .of_same rfl
  | acts acts h => exact ⟨rfl, rfl, rfl, rfl, rfl, rfl, h⟩

theorem Haul.aside {b b' : Broker} (h : Haul new b b') : Aside new b b' := by
  induction h with
  | refl => exact Aside.refl b
  | tail _ hstep ih => exact ih.trans hstep.aside

theorem Own1.aside {b b' : Broker} (h : Own1 Quiet1 b b') : Aside new b b' := by
  cases h with
  | other h => exact (Quiet1.haul b h).aside
  | registry names log => exact .of_same rfl
  | record id f hid hfd hpending hoq => exact aside_modConn b id f

theorem Plain.aside {b b' : Broker} (h : Plain b b') : Aside new b b' := by
  induction h with
  | refl => exact Aside.refl b
  | tail _ hstep ih => exact ih.trans hstep.aside

/-! ## Input and output -/

theorem aside_removeConn : Aside new b (b.removeConn env id) := by
  cases hc : b.conn? id with
  | none =>
    rw [removeConn_of_none env b id hc]
    exact Aside.refl b
  | some c =>
    obtain ⟨n, b₁, htalk, heq⟩ := removeConn_steps env b id hc
    have hmon : Aside new b { b with nmonitors := n } := .of_same rfl
    have hgone := (hmon.trans (plain_dropNames env _ id).aside).trans htalk.aside
    rw [heq]
    dsimp only
    split
    · exact hgone.trans (.of_same rfl)
    · refine (hgone.trans ?_).trans (Aside.trans (((aside_closeFds _ _).trans (aside_closeFd _ _)).trans
        (aside_closeFds _ _)) (.of_same rfl))
      exact .of_same rfl

theorem aside_takeBytes (data : Bytes) : Aside new b (b.takeBytes env id data) := by
  unfold takeBytes
  split
  · exact Aside.refl b
  · split
    · split
      · exact (aside_modConn b id _).trans (aside_removeConn env _ id)
      · exact aside_modConn b id _
    · have hshake (c : Conn) : Aside new b ((b.modConn id (fun _ => c)).drainScratch id) :=
        (aside_modConn b id (fun _ => c)).trans (talk_drainScratch _ id).aside
      dsimp only
      split
      · exact (hshake _).trans (aside_removeConn env _ id)
      · exact hshake _

theorem aside_receive (data : Bytes) (nfds : Nat) : Aside new b (b.receive env id data nfds) := by
  unfold receive
  split
  · exact Aside.refl b
  · refine Aside.trans ?_ (aside_takeBytes env ..)
    exact ((aside_openFds b nfds).trans (aside_modConn ..)).trans (aside_closeFds _ _)

theorem aside_writable (answers : List SendResult) : Aside new b (b.writable env id answers) := by
  unfold writable
  split
  · exact Aside.refl b
  · have hflush (c : Conn) (closed : List Int) : Aside new b ((b.modConn id (fun _ => c)).closeFds closed) :=
      (aside_modConn b id (fun _ => c)).trans (aside_closeFds _ closed)
    dsimp only
    split
    · exact hflush _ _
    · exact (hflush _ _).trans (aside_removeConn env _ id)

theorem aside_addConn (creds : Creds) : Aside new b (b.addConn creds) := by
  have hopen : Aside new b b.openFd.1 := aside_openFd b
  unfold addConn
  dsimp only
  split
  · exact hopen
  · have hid : Aside new b { b.openFd.1 with nextId := b.openFd.1.nextId + 1 } := hopen.trans (.of_same rfl)
    split
    · exact hid.trans (aside_closeFd _ _)
    · exact hid.trans (.of_same rfl)

end Broker

end SchemaInit.Dbus
