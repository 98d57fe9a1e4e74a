/-
  Threaded code follows the interpreter.

  A block of a faithful graph is compared with the interpreter, place by place.  Where
  a block begins the interpreter may lag behind by instructions that only jump; it
  makes up for them when the next instruction begins.

  * `At.simulates`: the rest of a block, against the rest of the instructions;
  * `runOn_meets`: a number of blocks;
  * `runThreaded_agrees`: a whole run, gone on with in the interpreter after a bail.
-/
import TieredMachine.Proofs.Native.WayOut
import TieredMachine.Proofs.Native.Handover

namespace TieredMachine

variable {us : Array CodeUnit} {side : Side} {g g' : Guest} {u : CodeUnit} {most : Nat}
  {G : Graph} {h₀ : Heap}

/-! ## Cached bindings -/

/-- A binding that held is still there when the versions of its namespaces are the same
    and did not go round. -/
theorem Assumption.HoldsIn.still {a : Assumption} {h h' : Heap} (ha : a.HoldsIn h)
    (he : h.Evolves h') (hw : ¬ h'.Worn) {f : Frame}
    (hg : Threaded.guardHolds h' f a.versions) :
    h'.lookupGlobal? f.globals f.builtins a.name = some a.value := by
  simp only [Threaded.guardHolds, Bool.and_eq_true, decide_eq_true_eq] at hg
  obtain ⟨⟨⟨hgl, hgv⟩, hbl⟩, hbv⟩ := hg
  obtain ⟨hv, hav, hbv'⟩ := ha
  have same {r : Ref} (hr : (h'.space r).version = (h.space r).version) :
      h.space r = h'.space r := by
    refine (he.2 r).eq_of_version ?_ hr.symm
    exact Nat.lt_of_not_le fun hle => hw ⟨r, hle⟩
  rw [hgl] at hgv
  rw [hbl] at hbv
  have hgs := same (hgv.trans hav)
  have hbs := same (hbv.trans hbv')
  unfold Heap.lookupGlobal? at hv ⊢
  rw [hgl, hbl, ← hgs, ← hbs]
  exact hv

/-- A global name that is bound. -/
theorem Primitive.run_loadGlobal (g : Guest) (site : Site) (r : Bool) {n : Nat} {name : String}
    {v : Value} {s : Activation} (hn : s.frame.code.names[n]? = some name)
    (hv : s.machine.heap.lookupGlobal? s.frame.globals s.frame.builtins name = some v) :
    Primitive.run g site r ⟨.loadGlobal, some n⟩ s =
      .ok .next ⟨s.frame.push v, s.machine⟩ := by
  have named : Primitive.nameAt n s = .ok name s := by
    unfold Primitive.nameAt
    rw [bind_apply]
    simp only [show frame s = .ok s.frame s from rfl, hn]
    rfl
  show (Primitive.loadGlobal n >>= fun _ => pure Flow.next) s = _
  have loaded : Primitive.loadGlobal n s = .ok () ⟨s.frame.push v, s.machine⟩ := by
    unfold Primitive.loadGlobal
    rw [bind_apply, named]
    dsimp only
    rw [bind_apply]
    simp only [show frame s = .ok s.frame s from rfl]
    rw [bind_apply]
    simp only [show (liftM heap : FrameExec Heap) s = .ok s.machine.heap s from rfl, hv]
    rfl
  rw [bind_apply, loaded]
  rfl

/-- An outcome that keeps a worn state says nothing. -/
theorem spent_of_worn {α : Type} {x : FrameExec α} (hx : Keeps (runWorld us) x) {s : Activation}
    (hs : s.machine.heap.Worn) : (runWorld us).Spent (x s) :=
  .inr (hx.worn hs)

/-! ## Blocks -/

/-- What the rest of a block does from a place on, against the rest of the instructions. -/
def Place.Follows (us : Array CodeUnit) (side : Side) (u : CodeUnit) (h₀ : Heap) (most : Nat)
    (G : Graph) (g g' : Guest) (w : Watch) (is : List Inst) (t : Terminator) : Place → Prop
  | .start ip => ∀ n ≤ most, n = 0 ∨ 0 < begins is → ∀ s s', Behind us u n s s' →
      s.frame.ip = ip → h₀.Evolves s'.machine.heap →
      ∃ j ≤ n + (u.words.size - ip) + 1,
        Meet (runWorld us) side (Arrives us u most G (min 1 (begins is)) j)
          (Threaded.rest g G is t s) (turns g' w j s')
  | .inside i k ps => u.instrAt? i.ip = some i → ∀ s s', Alongside us u h₀ i s s' →
      ∃ j ≤ (u.words.size - i.next) + 1,
        Meet (runWorld us) side (Arrives us u most G 0 j) (Threaded.rest g G is t s)
          (TieredMachine.inside g' w i k ps j s')

theorem At.simulates (hf : Faithful u h₀ most G) (hg : Guests us side g g') (hp : Polls us g)
    (w : Watch) {place : Place} {is : List Inst} {t : Terminator}
    (h : At u G.Sets G.assumptions (G.Leads u most) place is t) :
    place.Follows us side u h₀ most G g g' w is t := by
  induction h with
  | @poll ip kind is t _ ih =>
    intro n hn hopen s s' hs hip he
    have count : begins (⟨⟨ip, 0⟩, .safePoint kind⟩ :: is) = begins is := rfl
    obtain ⟨reason, m, hpoll, hm⟩ := hp kind s.machine
    have hs' : Behind us u n ⟨s.frame, m⟩ s' := ⟨hs.code, hs.frame, hs.hops, hm.alike_left hs.machine⟩
    cases reason with
    | none =>
      rw [Threaded.rest_poll_none hpoll, count]
      exact ih n hn hopen ⟨s.frame, m⟩ s' hs' hip he
    | some reason =>
      rw [Threaded.rest_poll_some hpoll]
      exact ⟨0, Nat.zero_le _, .ok (.bail hn hs')⟩
  | @begin ip i is t hi _ ih =>
    intro n hn _ s s' hs hip he
    have hiip := hf.unit.ip_eq hi
    have hlt := hf.unit.ip_lt hi
    have hnext := Code.Instr.ip_lt_next i
    obtain ⟨m, hm, hturns⟩ := hs.hops.turns us g' w (i := i) (by rw [hip]; exact hi) s' hs.code rfl
    have left : Threaded.rest g G (⟨⟨ip, 0⟩, .begin_ i.next⟩ :: is) t s =
        Threaded.rest g G is t ⟨s.frame.begin i, s.machine⟩ := by
      rw [Threaded.rest_begin, ← hiip]
      rfl
    have same : s.frame.begin i = s'.frame.begin i := by
      rw [hs.frame]
      rfl
    obtain ⟨j, hj, hmeet⟩ := ih (by rw [hiip]; exact hi) ⟨s.frame.begin i, s.machine⟩
      ⟨s'.frame.begin i, m⟩ ⟨⟨same, hm.alike_right hs.machine⟩, hs.code, rfl, he.trans hm.kept⟩
    refine ⟨n + (j + 1), by omega, ?_⟩
    rw [left, hturns]
    exact hmeet.mono fun _ _ _ _ => .mono fun _ => by omega
  | @cached ip i name ps a assumed is t hi hprims ha hname _ ih =>
    intro n hn _ s s' hs hip he
    have hiip := hf.unit.ip_eq hi
    have hlt := hf.unit.ip_lt hi
    have hnext := Code.Instr.ip_lt_next i
    rw [Threaded.rest_guard]
    split
    · rename_i hguard
      by_cases hworn : s.machine.heap.Worn
      · have heap : s.machine.heap = s'.machine.heap := congrArg Sight.heap hs.machine.1
        have left := spent_of_worn (Threaded.keeps_rest hg hp G (⟨⟨ip, 0⟩, .begin_ i.next⟩ ::
          ⟨⟨ip, 0⟩, .loadCached a⟩ :: is) t) hworn
        have right := spent_of_worn (turns_agrees hg w w 0).right (heap ▸ hworn)
        refine ⟨0, Nat.zero_le _, ?_⟩
        cases hside : side with
        | left => exact .left rfl left
        | right => exact .right rfl right
      · obtain ⟨m, hm, hturns⟩ := hs.hops.turns us g' w (i := i) (by rw [hip]; exact hi) s'
          hs.code rfl
        have heap : s.machine.heap = s'.machine.heap := congrArg Sight.heap hs.machine.1
        have heap' : m.heap = s'.machine.heap := congrArg Sight.heap hm.sight
        have bound := (hf.assumed assumed (Array.mem_of_getElem? ha)).still (heap ▸ he) hworn hguard
        have left : Threaded.rest g G (⟨⟨ip, 0⟩, .begin_ i.next⟩ :: ⟨⟨ip, 0⟩, .loadCached a⟩ :: is)
            t s = Threaded.rest g G is t ⟨(s.frame.begin i).push assumed.value, s.machine⟩ := by
          rw [Threaded.rest_begin, Threaded.rest_cached g _ ha, ← hiip]
          rfl
        have same : s.frame.begin i = s'.frame.begin i := by
          rw [hs.frame]
          rfl
        have loaded : caught (Primitive.run g' ⟨i.ip, 0⟩ w.recording ⟨.loadGlobal, some name⟩)
            ⟨s'.frame.begin i, m⟩ = .ok .next ⟨(s'.frame.begin i).push assumed.value, m⟩ := by
          have names : (s'.frame.begin i).code.names[name]? = some assumed.name := by
            rw [show (s'.frame.begin i).code = u from hs.code]
            exact hname
          have found : m.heap.lookupGlobal? (s'.frame.begin i).globals (s'.frame.begin i).builtins
              assumed.name = some assumed.value := by
            rw [heap', ← heap, ← same]
            exact bound
          have run := Primitive.run_loadGlobal g' ⟨i.ip, 0⟩ w.recording
            (s := ⟨s'.frame.begin i, m⟩) names found
          unfold caught
          rw [tryCatch_apply, run]
        obtain ⟨j, hj, hmeet⟩ := ih (by rw [hiip]; exact hi)
          ⟨(s.frame.begin i).push assumed.value, s.machine⟩
          ⟨(s'.frame.begin i).push assumed.value, m⟩
          ⟨⟨by rw [same], hm.alike_right hs.machine⟩, hs.code, rfl, he.trans hm.kept⟩
        refine ⟨n + (j + 1), by omega, ?_⟩
        rw [left, hturns, hprims, inside_cons, bind_apply, loaded]
        exact hmeet.mono fun _ _ _ _ => .mono fun _ => by omega
    · exact ⟨0, Nat.zero_le _, .ok (.bail hn hs)⟩
  | @op i k p ps op is t hperf _ ih =>
    intro hi s s' hs
    rw [Threaded.rest_cons]
    simp only [inside_cons]
    refine (hperf.meets hg w.recording hs.alike hs.ip).bindWithin (fun passed => ?_)
      (fun j flow => keeps_insideAfter hg w i k ps j flow) fun passed t flow t' hx hy ht => ?_
    · cases passed with
      | next => exact Threaded.keeps_rest hg hp G is _
      | bail reason => exact .pure _
      | flow flow => exact Threaded.keeps_follow G flow
    · obtain ⟨hans, ht⟩ := ht
      have hs' := hs.after hg hy ht
      cases hans with
      | next => exact ih hi t t' hs'
      | flow hne =>
        refine ⟨0, Nat.zero_le _, ?_⟩
        have gone : Meet (runWorld us) side (Arrives us u most G 0 0) _ _ :=
          follow_meets hf.numbered w flow hs'.alike hs'.code
        rw [← direct_last g' w] at gone
        cases flow with
        | next => exact absurd rfl hne
        | _ => exact gone
  | @next i k is t _ ih =>
    intro hi s s' hs
    obtain ⟨j, hj, hmeet⟩ := ih 0 (Nat.zero_le _) (.inl rfl) s s' (.same hs.alike hs.code)
      hs.ip_left hs.evolved
    refine ⟨j, by omega, ?_⟩
    rw [inside_nil]
    exact hmeet.mono fun _ _ _ _ => .mono fun _ => Nat.zero_le _
  | @exit i k p t hx =>
    intro hi s s' hs
    obtain ⟨j, hj, hm⟩ := hx.meets hf hg w hs
    exact ⟨j, by omega, hm⟩
  | @fall ip b hl =>
    intro n hn hopen s s' hs hip he
    obtain rfl := hopen.resolve_right (Nat.lt_irrefl 0)
    refine ⟨0, Nat.zero_le _, ?_⟩
    have hhere : s'.frame.ip = s.frame.ip := congrArg Frame.ip hs.alike.1.symm
    exact .ok (.edge hl hs.code (hhere.trans hip) hs.frame hs.machine)
  | @trap ip hi =>
    intro n hn hopen s s' hs hip he
    obtain rfl := hopen.resolve_right (Nat.lt_irrefl 0)
    have hhere : s'.frame.ip = s.frame.ip := congrArg Frame.ip hs.alike.1.symm
    have off := turns_off g' w (s := s') (j := 0) (by rw [hs.code, hhere, hip]; exact hi)
    refine ⟨1, by omega, ?_⟩
    rw [off, hhere, hip]
    exact .error ((runWorld us).failed_of_alike hs.alike)

/-! ## Runs -/

/-- A block follows the interpreter. -/
theorem runBlock_meets (hf : Faithful u h₀ most G) (hg : Guests us side g g') (hp : Polls us g)
    (w : Watch) {b : BlockId} (hb : b < G.blocks.size) {n : Nat} (hn : n ≤ most)
    {s s' : Activation}
    (hs : Behind us u n ⟨{ s.frame with ip := (G.block b).start }, s.machine⟩ s')
    (he : h₀.Evolves s'.machine.heap) :
    ∃ j ≤ u.words.size + most + 1, Meet (runWorld us) side (Arrives us u most G 1 j)
      (Threaded.runBlock g G b s) (turns g' w j s') := by
  have opens := hf.opens b hb
  obtain ⟨j, hj, h⟩ := (hf.code b hb).simulates hf hg hp w n hn (.inr opens) _ s' hs rfl he
  refine ⟨j, by omega, ?_⟩
  rw [Nat.min_eq_left opens] at h
  exact h

namespace Threaded

/-- Runs blocks until native code is left, or until so many of them have run. -/
def runOn (g : Guest) (G : Graph) : Nat → Landing → FrameExec Landing
  | fuel + 1, .block b => do runOn g G fuel (← runBlock g G b)
  | _, l => return l

/-- How native code is left at a landing, unless there is another block to run. -/
def leaving : Landing → Option NativeExit
  | .exit e => some (.done e)
  | .bail reason => some (.bail reason)
  | .block _ => none

theorem runFrom_eq (g : Guest) (G : Graph) (k : NativeExit → FrameExec Exit) (fuel : Nat)
    (l : Landing) : (runFrom g G fuel l >>= k) =
      (do let l ← runOn g G fuel l; pure (leaving l)) >>= orOutOfFuel k := by
  induction fuel generalizing l with
  | zero => cases l <;> rfl
  | succ fuel ih =>
    cases l with
    | exit e => rfl
    | bail reason => rfl
    | block b =>
      show (runBlock g G b >>= runFrom g G fuel) >>= k = _
      unfold runOn
      simp only [bind_assoc] at ih ⊢
      congr 1
      funext l
      exact ih l

theorem keeps_runBlock (hg : Guests us side g g') (hp : Polls us g) (G : Graph) (b : BlockId) :
    Keeps (runWorld us) (runBlock g G b) :=
  (keeps_moveTo _).bind fun _ => keeps_rest hg hp G _ _

theorem keeps_runOn (hg : Guests us side g g') (hp : Polls us g) (G : Graph) (fuel : Nat)
    (l : Landing) : Keeps (runWorld us) (runOn g G fuel l) := by
  induction fuel generalizing l with
  | zero => cases l <;> exact .pure _
  | succ fuel ih =>
    cases l with
    | block b => exact (keeps_runBlock hg hp G b).bind ih
    | exit e => exact .pure _
    | bail reason => exact .pure _

end Threaded

/-- So many blocks follow the interpreter. -/
theorem runOn_meets (hf : Faithful u h₀ most G) (hg : Guests us side g g') (hp : Polls us g)
    (w : Watch) (fuel : Nat) {l : Threaded.Landing} {s : Activation} {exit : Option Exit}
    {s' : Activation} (hl : Arrives us u most G 0 0 l s exit s')
    (he : h₀.Evolves s'.machine.heap) :
    ∃ j ≤ (u.words.size + most + 1) * fuel, Meet (runWorld us) side
      (Arrives us u most G fuel j) (Threaded.runOn g G fuel l s)
      (unlessLeft (turns g' w j) exit s') := by
  induction fuel generalizing l s exit s' with
  | zero =>
    refine ⟨0, Nat.zero_le _, ?_⟩
    have left : Threaded.runOn g G 0 l s = .ok l s := by cases l <;> rfl
    have right : unlessLeft (turns g' w 0) exit s' = .ok exit s' := by cases exit <;> rfl
    rw [left, right]
    exact .ok hl
  | succ fuel ih =>
    cases hl with
    | exit h => exact ⟨0, Nat.zero_le _, .ok (.exit h)⟩
    | bail hn h => exact ⟨0, Nat.zero_le _, .ok (.bail hn h)⟩
    | @block b n _ _ _ hb hn h =>
      obtain ⟨j, hj, hm⟩ := runBlock_meets hf hg hp w hb hn h he
      have step : ∃ k ≤ (u.words.size + most + 1) * fuel, Meet (runWorld us) side
          (Arrives us u most G (fuel + 1) (j + k)) (Threaded.runOn g G (fuel + 1) (.block b) s)
          ((turns g' w j >>= unlessLeft (turns g' w k)) s') := by
        refine hm.bindWithin (Threaded.keeps_runOn hg hp G fuel)
          (fun k exit => (unlessLeft_agrees (turns_agrees hg w w k) exit).right)
          fun l t exit t' _ hy ht => ?_
        have kept := (turns_agrees hg w w j).right s'
        rw [hy] at kept
        have stay (l : Threaded.Landing) (hl : ∀ b, l ≠ .block b) :
            Threaded.runOn g G fuel l = pure l := by
          cases l with
          | block b => exact absurd rfl (hl b)
          | _ => cases fuel <;> rfl
        cases ht with
        | exit h =>
          refine ⟨0, Nat.zero_le _, ?_⟩
          rw [stay _ (by simp)]
          exact .ok (.exit h)
        | bail hn h =>
          refine ⟨0, Nat.zero_le _, ?_⟩
          rw [stay _ (by simp)]
          exact .ok (.bail hn h)
        | block hlt hb hn h =>
          obtain ⟨k, hk, hm⟩ := ih (.block (Nat.le_refl 0) hb hn h) (he.trans kept.2)
          exact ⟨k, hk, hm.mono fun _ _ _ _ => .mono fun _ => by omega⟩
      obtain ⟨k, hk, hm⟩ := step
      refine ⟨j + k, by rw [Nat.mul_succ]; omega, ?_⟩
      show Meet _ _ _ _ (turns g' w (j + k) s')
      rw [turns_add]
      exact hm

theorem mem_of_lookup {l : List (Nat × BlockId)} {ip : Nat} {b : BlockId}
    (h : l.lookup ip = some b) : (ip, b) ∈ l := by
  obtain ⟨l₁, l₂, rfl, _⟩ := List.lookup_eq_some_iff.mp h
  simp

/-- A resumed frame goes on in the block behind the instruction that suspended it. -/
theorem enter_resume (G : Graph) (v : Value) (s : Activation) :
    Threaded.enter G (.resume v) s = (match s.frame.lasti.bind G.resumeBlock? with
      | some b => (pure (.block b) : FrameExec Threaded.Landing)
      | none => Threaded.land G) ⟨s.frame.push v, s.machine⟩ := rfl

/-- Entering threaded code arrives where entering the interpreter does. -/
theorem enter_meets (hf : Faithful u h₀ most G) (w : Watch) {entry : Entry} {s s' : Activation}
    (hs : (runWorld us).alike s s') (hc : s'.frame.code = u) (hr : s'.frame.Ready us entry) :
    Meet (runWorld us) side (Arrives us u most G 0 0) (Threaded.enter G entry s)
      (enter w entry s') := by
  cases entry with
  | call =>
    obtain ⟨m, ht, hm⟩ := (quiet_tellTracer w .call : Quiet us _) s'
    have right : enter w .call s' = .ok none ⟨s'.frame, m⟩ := by
      show (tellTracer w .call >>= fun _ => pure none) s' = _
      rw [bind_apply, ht]
      rfl
    rw [right]
    exact .ok (.edge hf.entry hc hr.ip (by rw [hs.1]) (hm.alike_right hs.2))
  | resume v =>
    obtain ⟨i, hi, _, hlasti, hip⟩ := hr.yielded
    have pushed : enter w (.resume v) s' = .ok none ⟨s'.frame.push v, s'.machine⟩ := rfl
    have alike : (runWorld us).alike ⟨s.frame.push v, s.machine⟩ ⟨s'.frame.push v, s'.machine⟩ :=
      ⟨by rw [hs.1], hs.2⟩
    rw [enter_resume, pushed]
    rw [← hs.1] at hlasti
    cases hb : s.frame.lasti.bind G.resumeBlock? with
    | some b =>
      rw [hlasti] at hb
      obtain ⟨i', hi', hl⟩ := hf.resume i.ip b (mem_of_lookup hb)
      rw [hc] at hi
      obtain rfl : i' = i := Option.some.inj (hi'.symm.trans hi)
      exact .ok (.edge hl hc hip (by rw [alike.1]) hs.2)
    | none =>
      exact landed hf.numbered (.ret none) alike hc
  | throw_ exc => exact follow_meets hf.numbered w (.raise exc true) hs hc
  | continue_ => exact hr.elim

/-- A frame run as threaded code, gone on with in the interpreter after a bail, agrees with
    the frame run in the interpreter. -/
theorem runThreaded_agrees (hf : Faithful u h₀ most G) (hg : Guests us side g g')
    (hp : Polls us g) {k : NativeExit → FrameExec Exit} (hk : Resumes us g k)
    (hl : side = .left → (u.words.size + most + 1) * g.fuel + (most + g.fuel) ≤ g'.fuel)
    (hr : side = .right → g'.fuel ≤ g.fuel) {entry : Entry} {s s' : Activation}
    (hs : (runWorld us).alike s s') (hc : s'.frame.code = u) (hready : s'.frame.Ready us entry)
    (he : h₀.Evolves s'.machine.heap) :
    Agree (runWorld us) side ((runThreaded g G entry >>= k) s) (interpret g' entry s') := by
  let w := s'.machine.watch s'.frame.code.id
  have left : runThreaded g G entry >>= k = Threaded.enter G entry >>= fun l =>
      (do let l ← Threaded.runOn g G g.fuel l; pure (Threaded.leaving l)) >>= orOutOfFuel k := by
    unfold runThreaded
    rw [bind_assoc]
    congr 1
    funext l
    exact Threaded.runFrom_eq g G k g.fuel l
  have keepsLeft (l : Threaded.Landing) : Keeps (runWorld us)
      ((do let l ← Threaded.runOn g G g.fuel l; pure (Threaded.leaving l)) >>= orOutOfFuel k) := by
    refine ((Threaded.keeps_runOn hg hp G g.fuel l).bind fun _ => .pure _).bind fun e => ?_
    cases e with
    | none => exact .throw _
    | some e => exact hk.keeps e
  have entered : Meet (runWorld us) side (Arrives us u most G 0 0) (Threaded.enter G entry s)
      (enter w entry s') := enter_meets hf w hs hc hready
  rw [left]
  show Agree _ _ _ ((enter w entry >>= goOn g' w g'.fuel) s')
  refine entered.bind keepsLeft
    (fun exit => (goOn_agrees hg w w (side.bounds_self _) exit).right) fun l t exit t' _ hy ht => ?_
  have he' : h₀.Evolves t'.machine.heap := by
    have kept := (enter_agrees w w entry : Agrees (runWorld us) side _ _).right s'
    rw [hy] at kept
    exact he.trans kept.2
  obtain ⟨j, hj, hm⟩ := runOn_meets hf hg hp w g.fuel ht he'
  cases exit with
  | some exit =>
    cases ht with
    | exit ht =>
      have ran : Threaded.runOn g G g.fuel (.exit exit) = pure (.exit exit) := by
        cases g.fuel <;> rfl
      rw [ran]
      show Agree _ _ (k (.done exit) t) (.ok exit t')
      rw [hk.done]
      exact .ok ⟨rfl, ht⟩
  | none =>
    have reached : Meet (runWorld us) side (Reaches us u most g.fuel j)
        ((do let l ← Threaded.runOn g G g.fuel l; pure (Threaded.leaving l)) t)
        (turns g' w j t') := by
      rw [← bind_pure (turns g' w j)]
      refine hm.bind (fun _ => .pure _) (fun _ => .pure _) fun l t exit t' _ _ ha => ?_
      cases ha with
      | exit h => exact .ok (.done h)
      | bail hn h => exact .ok (.bail hn (h.handed hf.unit))
      | block hle _ _ _ => exact .ok (.more hle)
    refine Reaches.agree hg hk w reached (fun h => ?_) fun h => ⟨hr h, hr h⟩
    have := hl h
    omega

end TieredMachine