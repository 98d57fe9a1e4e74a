/-
  Frames that are handed over.

  Native code that bails hands its frame over to the interpreter.  The frame may stand
  past instructions that only jump, and may have forgotten which instruction began last:
  the next one to begin makes up for both.

  * `Handed`: a frame that is handed over, and that of the interpreter;
  * `Handed.interpret`: the interpreter goes on alike from both;
  * `Reaches`: where native code ends, and where the interpreter is;
  * `Resumes`, `Reaches.agree`: a run of native code, gone on with after a bail.
-/
import TieredMachine.Proofs.Native.Lag
import TieredMachine.Run.Frame

namespace TieredMachine

variable {us : Array CodeUnit} {side : Side} {g g' : Guest} {u : CodeUnit} {most : Nat}

/-- The frame on the left is handed over where the interpreter on the right arrives after
    so many more instructions that only jump. -/
structure Handed (us : Array CodeUnit) (u : CodeUnit) (n : Nat) (s s' : Activation) : Prop where
  code : s'.frame.code = u
  frame : s.frame = { s'.frame with ip := s.frame.ip, lasti := s.frame.lasti }
  hops : Hops u n s'.frame.ip s.frame.ip
  /-- the frames are one, or an instruction is about to begin -/
  opens : (n = 0 ∧ s.frame = s'.frame) ∨ ∃ i, u.instrAt? s.frame.ip = some i
  machine : (machineWorld us).alike s.machine s'.machine

theorem Behind.handed (hu : u.Checked) {n : Nat} {s s' : Activation} (h : Behind us u n s s') :
    Handed us u n s s' where
  code := h.code
  frame := by rw [h.frame]
  hops := h.hops
  opens := by
    rcases Nat.eq_zero_or_pos n with rfl | hn
    · exact .inl ⟨rfl, h.alike.1⟩
    · exact .inr (h.hops.instrAt? hu hn)
  machine := h.machine

/-- The interpreter goes on alike from a frame that is handed over, when it has the fuel
    to make up for the jumps. -/
theorem Handed.interpret (hg : Guests us side g g') (w w' : Watch) {n fuel fuel' : Nat}
    {s s' : Activation} (hs : Handed us u n s s') (hl : side = .left → n + fuel ≤ fuel')
    (hr : side = .right → fuel' ≤ fuel) :
    Agree (runWorld us) side (interpretFrom g w fuel s) (interpretFrom g' w' fuel' s') := by
  obtain ⟨rfl, hsame⟩ | ⟨i, hi⟩ := hs.opens
  · exact (interpretFrom_agrees hg w w'
      ⟨fun h => by have := hl h; omega, hr⟩).agree ⟨hsame, hs.machine⟩
  obtain ⟨m, lasti, _, hrun⟩ := hs.hops.run us g' w' s' hs.code rfl
  by_cases hlate : fuel' ≤ n
  · obtain ⟨t, ht⟩ := interpretFrom_out hrun hlate
    cases side with
    | right => exact .right rfl (.inl ⟨trivial, t, ht⟩)
    | left =>
      have : fuel = 0 := by have := hl rfl; omega
      subst this
      exact .left rfl (.inl ⟨trivial, s, rfl⟩)
  cases fuel with
  | zero =>
    cases side with
    | left => exact .left rfl (.inl ⟨trivial, s, rfl⟩)
    | right => exact absurd (hr rfl) (by omega)
  | succ fuel =>
    obtain ⟨k, rfl⟩ : ∃ k, fuel' = (n + 1) + k := ⟨fuel' - (n + 1), by omega⟩
    have code : s.frame.code = u := by
      rw [hs.frame]
      exact hs.code
    obtain ⟨m, hm, hleft⟩ := turns_begin us g w (s := s) (i := i) (by rw [code]; exact hi)
    obtain ⟨m', hm', hright⟩ := hs.hops.turns us g' w' hi s' hs.code rfl
    have same : s.frame.begin i = s'.frame.begin i := by
      rw [hs.frame]
      rfl
    have first : Agree (runWorld us) side (TieredMachine.turns g w 1 s)
        (TieredMachine.turns g' w' (n + 1) s') := by
      rw [hleft 0, hright 0]
      exact (inside_agrees hg w w' i 0 i.prims 0).agree
        ⟨same, hm'.alike_right (hm.alike_left hs.machine)⟩
    rw [Nat.add_comm fuel 1, interpretFrom_add, interpretFrom_add]
    have bounds : side.bounds fuel k :=
      ⟨fun h => by have := hl h; omega, fun h => by have := hr h; omega⟩
    have rest := goOn_agrees hg w w' bounds
    refine first.bind (fun exit => (rest exit).left) (fun exit => (rest exit).right)
      fun exit t exit' t' _ _ ht => ?_
    obtain ⟨rfl, ht⟩ := ht
    exact (rest exit).agree ht

/-! ## Runs of native code -/

/-- Where a run of native code ends, if it does, when the interpreter has run `j`
    instructions.  A run that is out of fuel went on for as many instructions as it had
    fuel. -/
inductive Reaches (us : Array CodeUnit) (u : CodeUnit) (most fuel j : Nat) :
    Option NativeExit → Activation → Option Exit → Activation → Prop
  | done {e t t'} : (runWorld us).alike t t' →
      Reaches us u most fuel j (some (.done e)) t (some e) t'
  | bail {reason n t t'} : n ≤ most → Handed us u n t t' →
      Reaches us u most fuel j (some (.bail reason)) t none t'
  | more {t t'} : fuel ≤ j → Reaches us u most fuel j none t none t'

/-- What is done with the end of a run of native code: a bail is gone on from in the
    interpreter. -/
structure Resumes (us : Array CodeUnit) (g : Guest) (k : NativeExit → FrameExec Exit) : Prop where
  done : ∀ e, k (.done e) = pure e
  bail : ∀ reason t, t.machine.Sound us → ∃ m, t.machine.Veiled us m ∧
    k (.bail reason) t = interpret g .continue_ ⟨t.frame, m⟩
  keeps : ∀ e, Keeps (runWorld us) (k e)

/-- What is done with the end of a run, if there is one. -/
def orOutOfFuel (k : NativeExit → FrameExec Exit) : Option NativeExit → FrameExec Exit
  | some e => k e
  | none => throw .outOfFuel

/-- A run of native code agrees with the interpreter, when it is gone on with after a
    bail. -/
theorem Reaches.agree (hg : Guests us side g g') {k : NativeExit → FrameExec Exit}
    (hk : Resumes us g k) (w : Watch) {x : FrameExec (Option NativeExit)} {fuel fuel' j : Nat}
    {s s' : Activation}
    (h : Meet (runWorld us) side (Reaches us u most fuel j) (x s) (turns g' w j s'))
    (hl : side = .left → j + (most + g.fuel) ≤ fuel')
    (hr : side = .right → fuel' ≤ fuel ∧ fuel' ≤ g.fuel) :
    Agree (runWorld us) side ((x >>= orOutOfFuel k) s) (interpretFrom g' w fuel' s') := by
  have keeps (e : Option NativeExit) : Keeps (runWorld us) (orOutOfFuel k e) := by
    cases e with
    | none => exact .throw _
    | some e => exact hk.keeps e
  have keepsRight (n : Nat) (exit : Option Exit) : Keeps (runWorld us) (goOn g' w n exit) :=
    (goOn_agrees hg w w (side.bounds_self n) exit).right
  have core (n : Nat) (hn : side = .left → most + g.fuel ≤ n) (hn' : side = .right → n ≤ g.fuel)
      (hin : side = .right → ∀ t, interpretFrom g' w fuel' s' ≠ .error .outOfFuel t) :
      Agree (runWorld us) side ((x >>= orOutOfFuel k) s) ((turns g' w j >>= goOn g' w n) s') := by
    refine h.bind keeps (keepsRight n) fun e t exit t' _ hy ht => ?_
    cases ht with
    | done ht =>
      show Agree _ _ (k (.done _) t) _
      rw [hk.done]
      exact .ok ⟨rfl, ht⟩
    | @bail reason m _ _ hm ht =>
      obtain ⟨mach, hv, hb⟩ := hk.bail reason t ht.machine.2.1
      have handed : Handed us u m ⟨t.frame, mach⟩ t' :=
        ⟨ht.code, ht.frame, ht.hops, ht.opens, hv.alike_left ht.machine⟩
      show Agree _ _ (k (.bail reason) t) _
      rw [hb]
      exact handed.interpret hg _ w (fun h => by have := hn h; omega) hn'
    | more hj =>
      cases side with
      | left => exact .left rfl (.inl ⟨trivial, t, rfl⟩)
      | right =>
        obtain ⟨v, hv⟩ := interpretFrom_out hy (Nat.le_trans (hr rfl).1 hj)
        exact absurd hv (hin rfl v)
  cases hside : side with
  | left =>
    have hl' := hl hside
    obtain ⟨n, rfl⟩ : ∃ n, fuel' = j + n := ⟨fuel' - j, by omega⟩
    rw [interpretFrom_add, ← hside]
    exact core n (fun _ => by omega) (fun h => absurd (hside.symm.trans h) (by decide))
      fun h => absurd (hside.symm.trans h) (by decide)
  | right =>
    by_cases hout : ∃ t, interpretFrom g' w fuel' s' = .error .outOfFuel t
    · exact .right rfl (.inl ⟨trivial, hout⟩)
    · have hin : ∀ t, interpretFrom g' w fuel' s' ≠ .error .outOfFuel t :=
        fun t ht => hout ⟨t, ht⟩
      rw [← interpretFrom_more g' w fuel' j s' hin, Nat.add_comm, interpretFrom_add, ← hside]
      exact core fuel' (fun h => absurd (hside.symm.trans h) (by decide)) (fun h => (hr h).2)
        fun _ => hin

end TieredMachine
