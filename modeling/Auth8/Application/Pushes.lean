import Auth8.Application.Provenance
import Auth8.Server.Pushes

/-! # Where the pushes go

A call holds the device its query has found until it sends its push. What is known of the rows that a query
may find is known of the addresses of the pushes. -/
namespace Auth8.Application
open EventRuns KeyedTable Persistent Jaxrs Devices
set_option autoImplicit false

variable {K : String → String → Prop} {t : DeviceTable} {s s' : State}

/-! ## The devices of the calls -/

/-- The device is one that a query for the email may return. -/
def Eligible (K : String → String → Prop) (email : String) (device : Device) : Prop :=
  K device.email device.regid ∧ likeExp (some email) device.email = true

/-- The push of an `authenticate` call that has put its id. -/
def Issued (K : String → String → Prop) (s : State) (p : Server.Push) : Prop :=
  ∃ c args device, s.server.putIdOf c = some p.requestId ∧
    (∃ pc, s.server.authenticates c = some ⟨args, pc⟩) ∧ p.payload = args.payload ∧
    p.regid = device.regid ∧ Eligible K args.email device

structure Addressed (K : String → String → Prop) (s : State) : Prop where
  devices : Provenance K s.devices
  held : ∀ c th device, s.server.authenticates c = some th → th.pc.device = some device →
    Eligible K th.args.email device
  pushes : ∀ p ∈ s.server.pushes, Issued K s p

theorem addressed_init (h : ∀ email regid, HasDevice t email regid → K email regid) :
    Addressed K (.init t) := by
  refine ⟨provenance_init h, fun c th device hc => ?_, fun p hp => ?_⟩
  · cases hc
  · cases hp

theorem lookup_found {order : DeviceOrder} {email : String} {throws : Bool} {device : Device}
    (h : lookup order t email throws = .found device) :
    HasDevice t device.email device.regid ∧ likeExp (some email) device.email = true := by
  unfold lookup at h
  split at h
  · cases h
  · split at h
    · next row hrow =>
      cases h
      obtain ⟨hmem, hlike⟩ := of_first hrow
      exact ⟨⟨row, hmem, rfl, rfl⟩, hlike⟩
    · cases h

theorem Issued.server {p : Server.Push} {e : Server.Event} (h : Issued K s p)
    (hstep : Server.step s.server e = some s'.server) : Issued K s' p := by
  obtain ⟨c, args, device, hput, ⟨pc, hc⟩, hpayload, hregid, heligible⟩ := h
  obtain ⟨⟨args', pc'⟩, hc', hargs⟩ := (Server.step_holds hstep).args c _ hc
  obtain rfl : args' = args := hargs
  exact ⟨c, args', device, Server.step_putId_mono hstep hput, ⟨pc', hc'⟩, hpayload, hregid, heligible⟩

/-- An event of the server, where a lookup finds only rows of the table that match. -/
theorem Addressed.server {e : Server.Event} (h : Addressed K s)
    (hstep : Server.step s.server e = some s'.server) (hdevices : s'.devices = s.devices)
    (hfound : ∀ c device th, e = .lookup c (.found device) → s.server.authenticates c = some th →
      Eligible K th.args.email device) : Addressed K s' := by
  have hholds := Server.step_holds hstep
  refine ⟨by rw [hdevices]; exact h.devices, fun c th device hc hd => ?_, fun p hp => ?_⟩
  · cases hholds.device c th device hc hd with
    | inl hold =>
      obtain ⟨p, hp, hdevice⟩ := hold
      exact h.held c ⟨th.args, p⟩ device hp hdevice
    | inr hnew => exact hfound c device ⟨th.args, .lookup⟩ hnew.1 hnew.2
  · cases hholds.pushes with
    | inl heq =>
      rw [heq] at hp
      exact (h.pushes p hp).server hstep
    | inr hsends =>
      obtain ⟨c, args, device, id, hc, _, hpushes⟩ := hsends
      rw [hpushes, List.mem_cons] at hp
      cases hp with
      | inr hold => exact (h.pushes p hold).server hstep
      | inl hnew =>
        have hput : s.server.putIdOf c = some id := by
          rw [Server.State.putIdOf, hc]
          rfl
        have hissued : Issued K s ⟨device.regid, id, args.payload⟩ :=
          ⟨c, args, device, hput, ⟨_, hc⟩, rfl, rfl, h.held c _ device hc rfl⟩
        rw [hnew]
        exact hissued.server hstep

/-- Any other event of the server leaves the table alone. -/
theorem Addressed.other {e : Server.Event} (h : Addressed K s) (he : step s (.server e) = some s') :
    Addressed K s' := by
  simp only [step] at he
  split at he
  · cases he
  · next hlookup =>
    obtain ⟨server, hserver, rfl⟩ := Option.map_eq_some_iff.mp he
    refine h.server hserver rfl fun d device th heq _ => ?_
    rw [heq] at hlookup
    exact absurd rfl hlookup

theorem addressed_step {e : Event} (h : Addressed K s) (he : step s e = some s')
    (hK : ∀ email regid, Writes email regid s.devices s'.devices → K email regid) :
    Addressed K s' := by
  cases e with
  | device order e =>
    obtain ⟨devices, hdevices, rfl⟩ := Option.map_eq_some_iff.mp he
    exact ⟨provenance_step h.devices hdevices hK, h.held, h.pushes⟩
  | query c order throws =>
    obtain ⟨th, hc, he⟩ := Option.bind_eq_some_iff.mp he
    obtain ⟨server, hserver, rfl⟩ := Option.map_eq_some_iff.mp he
    refine h.server hserver rfl fun d device th' heq hd => ?_
    obtain ⟨rfl, hfound⟩ := Server.Event.lookup.inj heq
    obtain rfl : th = th' := Option.some.inj (hc.symm.trans hd)
    obtain ⟨hdevice, hlike⟩ := lookup_found hfound
    exact ⟨h.devices.rows _ _ hdevice, hlike⟩
  | server e => exact h.other he

/-- In every run the devices held and pushed to are stored at some time. -/
theorem addressed_of_run {es : List Event} (h : run step (.init t) es = some s) :
    Addressed (Stored step State.devices (.init t) es) s := by
  refine run_steps (addressed_init fun email regid hrow => ⟨_, visits_self _ _, hrow⟩) ?_ h
  intro pre e m m' hpre hm he haddressed
  exact addressed_step haddressed he fun email regid hwrites => ⟨m', .of_step hpre hm he, hwrites.2⟩

end Auth8.Application
