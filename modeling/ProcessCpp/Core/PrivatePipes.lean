import ProcessCpp.Core.ForkRun

/-!
# Are a child's pipes private to it and its parent?

One thread calls `core::posix::fork` and `core::posix::exec` (exec.cpp:42–82, which is a
call of `fork` whose `main` ends in `execve`), keeping or dropping the objects it gets.

Each call closes the ends it made itself and has no use for, in the parent and in the
child. Nothing closes the ends of the earlier calls: they are in the parent's table, without
close-on-exec, as long as the objects that own them are alive, and `::fork` copies them into
the table of a new child (`inherited_stdin`).

- `callerSystem p`: the calls of `p`, and whatever its children do with their own tables;
- `OwnedEnds`: every end in the parent's table belongs to a living object;
- `TableAtFork`: what the new child starts with, before it redirects anything;
- `pipes_private`: as long as no call is made while a living object owns a descriptor, nobody
  but the parent and the child it was made for ever holds an end of a pipe.
-/

namespace ProcessCpp.Core

open ProcessCpp.Base ProcessCpp.Posix

/-! ## Calls of `fork` and `exec` -/

/-- What `execve(2)` does to a table: it closes descriptors that are marked close-on-exec.
The ends of the library's pipes, made by `pipe(2)` and `dup(2)`, are not. -/
structure KeptByExec (t t' : FdTable Descr) : Prop where
  only : ∀ n d, t'.get n = some d → t.get n = some d
  pipes : ∀ n id side, t.get n = some (.pipe id side) → t'.get n = some (.pipe id side)

/-- A step of a process other than `p` on its own table. -/
def ForkLabel.OfChild (p : Nat) : ForkLabel → Prop
  | .call q _ | .exit q | .drop q _ => q ≠ p
  | .rawFork _ | .fork _ _ => False

inductive CallerLabel where
  | fork (flags : StandardStream)
  | exec (flags : StandardStream)
  | drop (i : Nat)
  | child (l : ForkLabel)
  | execve (q : Nat)

/-- The steps of `p`, which calls `fork` and `exec` and drops objects, and of its children:
`main`, or the `child_setup` and the `execve` of `exec`. -/
inductive CallerStep (p : Nat) (w : ForkWorld) : CallerLabel → ForkWorld → Prop where
  | fork {flags w'} (h : ForkStep w (.fork p flags) w') : CallerStep p w (.fork flags) w'
  | exec {flags w'} (h : ForkStep w (.fork p flags) w') : CallerStep p w (.exec flags) w'
  | drop {i w'} (h : ForkStep w (.drop p i) w') : CallerStep p w (.drop i) w'
  | child {l w'} (hl : l.OfChild p) (h : ForkStep w l w') : CallerStep p w (.child l) w'
  | execve {q img table} (hq : q ≠ p) (himg : w.procs q = some img)
      (hkept : KeptByExec img.table table) :
      CallerStep p w (.execve q)
        { w with procs := Function.update w.procs q (some ⟨table, false, []⟩) }

def callerSystem (p : Nat) : LTS ForkWorld CallerLabel where
  step := CallerStep p

/-- A call of `fork` or `exec` with these flags. -/
def CallerLabel.Creates (l : CallerLabel) (flags : StandardStream) : Prop :=
  l = .fork flags ∨ l = .exec flags

/-- A call is made only when no living object owns a descriptor. That the call redirects the
number in the new child is not enough: the child holds the end until it comes to its `dup2`. -/
def NothingToInherit (p : Nat) (w : ForkWorld) (l : CallerLabel) : Prop :=
  ∀ flags, l.Creates flags → ∀ img, w.procs p = some img → ∀ object ∈ img.objects, ∀ n,
    ¬ object.OwnsFd n

/-- The table that the `::fork` of such a call copies: the pipes of the call are open. -/
def TableAtFork (p : Nat) (w : ForkWorld) (flags : StandardStream) (t : FdTable Descr) : Prop :=
  ∃ img ps k, w.procs p = some img ∧ openStreams flags (w.fdState img) = (.ok ps, k) ∧
    t = k.table

/-! ## What a step does to the tables -/

/-- A plain call, the end of a process or of an object: a process has what it had, or ends
of new pipes. -/
theorem ForkStep.held_before {w w' : ForkWorld} {l : ForkLabel} (h : ForkStep w l w')
    (hl : ∀ q, l ≠ .rawFork q ∧ ∀ flags, l ≠ .fork q flags) {q : Nat} {img : ProcImage}
    {n id : Nat} {side : PipeEnd} (hq : w'.procs q = some img)
    (hd : img.table.get n = some (.pipe id side)) :
    (∃ img₀ n₀, w.procs q = some img₀ ∧ img₀.table.get n₀ = some (.pipe id side)) ∨
      w.nextPipe ≤ id := by
  cases h with
  | @call p img₀ op hp =>
    rcases update_cases hq with ⟨rfl, ⟨⟩⟩ | ⟨-, hq⟩
    · rcases (op.run_descr (k := w.fdState img₀) rfl).2 n id side hd with ⟨m, hm⟩ | hnew
      · exact .inl ⟨img₀, m, hp, hm⟩
      · exact .inr hnew.1
    · exact .inl ⟨img, n, hq, hd⟩
  | @exit p img₀ hp =>
    rcases update_cases hq with ⟨-, hgone⟩ | ⟨-, hq⟩
    · cases hgone
    · exact .inl ⟨img, n, hq, hd⟩
  | @drop p i img₀ object hp hobject =>
    rcases update_cases hq with ⟨rfl, ⟨⟩⟩ | ⟨-, hq⟩
    · exact .inl ⟨img₀, n, hp, Streams.get_of_dtor hd⟩
    · exact .inl ⟨img, n, hq, hd⟩
  | @rawFork p => exact absurd rfl (hl p).1
  | @fork p img₀ flags => exact absurd rfl ((hl p).2 flags)

theorem ForkLabel.OfChild.no_fork {p : Nat} {l : ForkLabel} (h : l.OfChild p) :
    ∀ q, l ≠ .rawFork q ∧ ∀ flags, l ≠ .fork q flags := by
  intro q
  refine ⟨?_, fun flags => ?_⟩
  · rintro rfl
    exact h
  · rintro rfl
    exact h

/-- A child's steps leave its parent alone. -/
theorem ForkStep.parent_eq {w w' : ForkWorld} {l : ForkLabel} {p : Nat} (h : ForkStep w l w')
    (hl : l.OfChild p) : w'.procs p = w.procs p := by
  cases h with
  | call | exit | drop => exact Function.update_of_ne (Ne.symm hl) ..
  | rawFork | fork => exact hl.elim

/-- Destroying pipes closes every descriptor they have. -/
theorem ForkedChild.not_ownsFd_of_dtor {object : ForkedChild} {k : FdState} {n : Nat} {d : Descr}
    (h : (object.d.pipes.dtor k).2.table.get n = some d) : ¬ object.OwnsFd n := by
  rw [Streams.dtor_table] at h
  have hopen := (FdTable.get_of_foldl_closeOpt h).2
  rintro ⟨ps, hps, howns⟩
  refine hopen ?_
  simp only [List.mem_cons, List.not_mem_nil, or_false] at hps
  rcases hps with rfl | rfl | rfl <;> rcases howns with howns | howns <;>
    simp [Streams.fds, howns]

namespace CallerStep

variable {p : Nat} {w w' : ForkWorld} {l : CallerLabel}

theorem wellFormed (h : CallerStep p w l w') (hw : w.WellFormed) :
    w'.WellFormed ∧ w.nextPipe ≤ w'.nextPipe := by
  have hflow : ∀ {l w'}, ForkStep w l w' → w'.WellFormed ∧ w.nextPipe ≤ w'.nextPipe := by
    intro l w' hstep
    have hf := flow_of_step hw hstep
    exact ⟨hf.wellFormed hw, hf.nextPipe_le⟩
  cases h with
  | fork h | exec h | drop h | child hl h => exact hflow h
  | @execve q img table hq himg hkept =>
    refine ⟨⟨fun r rimg n id side hr hd => ?_, fun r hr => ?_⟩, Nat.le_refl _⟩
    · rcases update_cases hr with ⟨rfl, ⟨⟩⟩ | ⟨-, hr⟩
      · exact hw.pipes r img n id side himg (hkept.only n _ hd)
      · exact hw.pipes r rimg n id side hr hd
    · have hne : r ≠ q := by
        rintro rfl
        rw [hw.procs r hr] at himg
        cases himg
      exact (Function.update_of_ne hne ..).trans (hw.procs r hr)

end CallerStep

/-! ## The parent's ends belong to living objects -/

/-- Every end of a pipe made since `first` that is in the table of `p` belongs to an object
that is alive. -/
def OwnedEnds (p first : Nat) (w : ForkWorld) : Prop :=
  ∀ img n id side, w.procs p = some img → img.table.get n = some (.pipe id side) → first ≤ id →
    ∃ object ∈ img.objects, object.OwnsFd n

theorem OwnedEnds.fork {p first : Nat} {w w' : ForkWorld} {flags : StandardStream}
    (h : OwnedEnds p first w) (hw : w.WellFormed) (hstep : ForkStep w (.fork p flags) w') :
    OwnedEnds p first w' := by
  intro img' n id side hp' hd hid
  cases hstep with
  | @fork _ img _ object ps kc k' hp hfork =>
    obtain ⟨ids, -, -, hparent, -, -⟩ := fork_wired hfork
    have hne : p ≠ w.nextProc := by
      rintro rfl
      rw [hw.procs _ (Nat.le_refl _)] at hp
      cases hp
    have himg : some ⟨k'.table, k'.invalidDone, img.objects ++ [object]⟩ = some img' :=
      ((Function.update_of_ne hne ..).trans (Function.update_self ..)).symm.trans hp'
    cases himg
    rcases hparent.only_streams hd with hbase | ⟨s, hs, -⟩
    · obtain ⟨old, hmem, howns⟩ := h img n id side hp hbase hid
      exact ⟨old, List.mem_append_left _ hmem, howns⟩
    · exact ⟨object, List.mem_append_right _ (List.mem_singleton_self _), hparent.ownsFd hs⟩

theorem OwnedEnds.step {p first : Nat} {w w' : ForkWorld} {l : CallerLabel}
    (h : OwnedEnds p first w) (hw : w.WellFormed) (hstep : CallerStep p w l w') :
    OwnedEnds p first w' := by
  cases hstep with
  | fork hfork | exec hfork => exact h.fork hw hfork
  | @drop i _ hdrop =>
    cases hdrop with
    | @drop _ _ img object hp hobject =>
      intro img' n id side hp' hd hid
      cases (Function.update_self ..).symm.trans hp'
      -- what is left was owned, and not by the object that is gone
      obtain ⟨owner, hmem, howns⟩ := h img n id side hp (Streams.get_of_dtor hd) hid
      refine ⟨owner, ?_, howns⟩
      obtain ⟨j, hj, rfl⟩ := List.getElem_of_mem hmem
      have hij : j ≠ i := by
        rintro rfl
        rw [List.getElem?_eq_getElem hj] at hobject
        cases hobject
        exact ForkedChild.not_ownsFd_of_dtor hd howns
      exact List.mem_eraseIdx_iff_getElem.mpr ⟨j, hj, hij, rfl⟩
  | child hl hchild =>
    intro img n id side hp hd hid
    rw [hchild.parent_eq hl] at hp
    exact h img n id side hp hd hid
  | execve hq =>
    intro img n id side hp hd hid
    exact h img n id side ((Function.update_of_ne (Ne.symm hq) ..).symm.trans hp) hd hid

/-- The pipes from here on are not there yet. -/
theorem OwnedEnds.start {p : Nat} {w : ForkWorld} (hw : w.WellFormed) : OwnedEnds p w.nextPipe w :=
  fun img n id side hp hd hid => absurd hid (Nat.not_le.mpr (hw.pipes p img n id side hp hd))

/-- When a call is made that leaves nothing to inherit, `::fork` copies the ends of no pipes
but those of the call. -/
theorem OwnedEnds.tableAtFork {p first : Nat} {w : ForkWorld} {l : CallerLabel}
    {flags : StandardStream} (h : OwnedEnds p first w) (hl : l.Creates flags)
    (hnothing : NothingToInherit p w l) {t : FdTable Descr} (ht : TableAtFork p w flags t)
    {n id : Nat} {side : PipeEnd} (hd : t.get n = some (.pipe id side)) (hid : first ≤ id) :
    w.nextPipe ≤ id := by
  obtain ⟨img, ps, k, hp, hopen, rfl⟩ := ht
  obtain ⟨ps', k', hopen', ids, hnew, -, -, -, hadds⟩ :=
    openStreams_spec (k := w.fdState img) ⟨.nil _, rfl⟩ flags
  cases hopen.symm.trans hopen'
  rcases (hadds.adds.get_iff n _).mp hd with hbase | hown
  · -- an older end would belong to a living object
    obtain ⟨object, hmem, howns⟩ := h img n id side hp hbase hid
    exact absurd howns (hnothing flags hl img hp object hmem n)
  · obtain ⟨s, ⟨-, he⟩ | ⟨-, he⟩⟩ := Streams.mem_descrs hown
    · cases he
      exact hnew.new s
    · cases he
      exact hnew.new s

/-! ## Nobody else inherits them -/

/-- Of the pipes numbered from `first` up to `last`, a process other than `p` holds only
ends in `mine`, and only if it is `c`. -/
structure PrivateTo (p c first last : Nat) (mine : Nat → PipeEnd → Prop) (w : ForkWorld) :
    Prop where
  old : last ≤ w.nextPipe
  held : ∀ q img n id side, q ≠ p → w.procs q = some img →
    img.table.get n = some (.pipe id side) → first ≤ id → id < last → q = c ∧ mine id side

theorem PrivateTo.of_held {p c first last : Nat} {mine : Nat → PipeEnd → Prop}
    {w w' : ForkWorld} (h : PrivateTo p c first last mine w) (hnext : w.nextPipe ≤ w'.nextPipe)
    (hheld : ∀ q img n id side, q ≠ p → w'.procs q = some img →
      img.table.get n = some (.pipe id side) → first ≤ id →
      (∃ img₀ n₀, w.procs q = some img₀ ∧ img₀.table.get n₀ = some (.pipe id side)) ∨
        w.nextPipe ≤ id) :
    PrivateTo p c first last mine w' := by
  refine ⟨h.old.trans hnext, fun q img n id side hq hproc hd hfirst hlast => ?_⟩
  rcases hheld q img n id side hq hproc hd hfirst with ⟨img₀, n₀, hproc₀, hd₀⟩ | hnew
  · exact h.held q img₀ n₀ id side hq hproc₀ hd₀ hfirst hlast
  · have hold := h.old
    omega

theorem PrivateTo.step {p c first last : Nat} {mine : Nat → PipeEnd → Prop} {w w' : ForkWorld}
    {l : CallerLabel} (h : PrivateTo p c first last mine w) (hw : w.WellFormed)
    (howned : OwnedEnds p first w) (hstep : CallerStep p w l w') (hl : NothingToInherit p w l) :
    PrivateTo p c first last mine w' := by
  have hnext := (hstep.wellFormed hw).2
  have hfork : ∀ flags, l.Creates flags → ForkStep w (.fork p flags) w' →
      PrivateTo p c first last mine w' := by
    intro flags hcreates hfork
    cases hfork with
    | @fork _ img _ object ps kc k' hp hcall =>
      obtain ⟨ids, hnew, -, -, hchild, -⟩ := fork_wired hcall
      refine h.of_held hnext fun q qimg n id side hq hproc hd hfirst => ?_
      rcases update_cases hproc with ⟨rfl, ⟨⟩⟩ | ⟨-, hproc⟩
      · -- the new child has nothing of the earlier calls
        right
        rcases hchild.only n _ hd with hbase | ⟨s, hs, he⟩
        · obtain ⟨owner, hmem, howns⟩ := howned img n id side hp hbase hfirst
          exact absurd howns (hl flags hcreates img hp owner hmem n)
        · cases he
          exact hnew.new s
      · rcases update_cases hproc with ⟨rfl, -⟩ | ⟨-, hproc⟩
        · exact absurd rfl hq
        · exact .inl ⟨qimg, n, hproc, hd⟩
  cases hstep with
  | fork hstep => exact hfork _ (.inl rfl) hstep
  | exec hstep => exact hfork _ (.inr rfl) hstep
  | drop hstep =>
    exact h.of_held hnext fun q img n id side _ hproc hd _ =>
      hstep.held_before (fun _ => ⟨nofun, nofun⟩) hproc hd
  | child hof hstep =>
    exact h.of_held hnext fun q img n id side _ hproc hd _ =>
      hstep.held_before hof.no_fork hproc hd
  | @execve r rimg table hr hrimg hkept =>
    refine h.of_held hnext fun q img n id side _ hproc hd _ => ?_
    rcases update_cases hproc with ⟨rfl, ⟨⟩⟩ | ⟨-, hproc⟩
    · exact .inl ⟨rimg, n, hrimg, hkept.only n _ hd⟩
    · exact .inl ⟨img, n, hproc, hd⟩

/-- Right after a call, the new pipes are with the parent and the new child. -/
theorem privateTo_of_call {p : Nat} {w w' : ForkWorld} {flags : StandardStream}
    (hw : w.WellFormed) (h : ForkStep w (.fork p flags) w') :
    ∃ ids before after child object, CallWired w w' p flags ids before after child object ∧
      PrivateTo p w.nextProc w.nextPipe w'.nextPipe
        (fun id side => ∃ s, flags.has s = true ∧ id = ids s ∧ side = s.childEnd) w' := by
  obtain ⟨ids, before, after, child, object, hwired, -, hmine⟩ := callWired_of_step hw h
  refine ⟨ids, before, after, child, object, hwired, Nat.le_refl _, ?_⟩
  intro q img n id side hq hproc hd hfirst hlast
  by_cases hc : q = w.nextProc
  · subst hc
    cases hwired.forked.symm.trans hproc
    exact ⟨rfl, hmine n id side hd hfirst⟩
  · -- everybody else has what it had
    have hold : w.procs q = some img := by
      cases h with
      | fork =>
        exact ((Function.update_of_ne hc ..).trans (Function.update_of_ne hq ..)).symm.trans hproc
    exact absurd hfirst (Nat.not_le.mpr (hw.pipes q img n id side hold hd))

/-! ## Over every run -/

theorem CallerStep.kept {p first : Nat} {w w' : ForkWorld} {l : CallerLabel}
    (hstep : CallerStep p w l w') (h : w.WellFormed ∧ OwnedEnds p first w) :
    w'.WellFormed ∧ OwnedEnds p first w' :=
  ⟨(hstep.wellFormed h.1).1, h.2.step h.1 hstep⟩

theorem kept_run {p first : Nat} {w w' : ForkWorld} {ls : List CallerLabel}
    (h : ((callerSystem p).restrict (NothingToInherit p)).Run w ls w')
    (hkept : w.WellFormed ∧ OwnedEnds p first w) : w'.WellFormed ∧ OwnedEnds p first w' := by
  refine h.invariant (P := fun x => x.WellFormed ∧ OwnedEnds p first x) ?_ hkept
  rintro x l y ⟨hstep, -⟩ hx
  exact CallerStep.kept hstep hx

theorem privateTo_run {p c first last : Nat} {mine : Nat → PipeEnd → Prop} {w w' : ForkWorld}
    {ls : List CallerLabel}
    (h : ((callerSystem p).restrict (NothingToInherit p)).Run w ls w')
    (hkept : w.WellFormed ∧ OwnedEnds p first w) (hprivate : PrivateTo p c first last mine w) :
    PrivateTo p c first last mine w' := by
  refine h.invariant_of (Q := fun x => x.WellFormed ∧ OwnedEnds p first x) ?_ ?_ hkept hprivate
  · rintro x l y ⟨hstep, -⟩ hx
    exact CallerStep.kept hstep hx
  · rintro x l y ⟨hstep, hl⟩ ⟨hx, howned⟩ hpx
    exact hpx.step hx howned hstep hl

/-- **A child's pipes are private as long as no call leaves anything to inherit**: for
every sequence of `fork` and `exec` calls of a process, with any flags, the objects dropped
in any order, and every call made only when no living object owns a descriptor: an end of a
pipe that a call has made is never held by anyone but the caller and the child of that call,
not even by a later child that has just come out of `::fork`, and the caller's end of each
stream, such as the write end of the child's `stdin`, by nobody but the caller. -/
theorem pipes_private {p : Nat} {w₀ w w' w'' : ForkWorld} {ls ms : List CallerLabel}
    {l : CallerLabel} {flags : StandardStream} (hstart : w₀.WellFormed)
    (hrun : ((callerSystem p).restrict (NothingToInherit p)).Run w₀ ls w)
    (hl : l.Creates flags)
    (hcall : ((callerSystem p).restrict (NothingToInherit p)).step w l w')
    (hlater : ((callerSystem p).restrict (NothingToInherit p)).Run w' ms w'') :
    ∃ ids before after child object, CallWired w w' p flags ids before after child object ∧
      (∀ q img n id side, w''.procs q = some img → img.table.get n = some (.pipe id side) →
        w.nextPipe ≤ id → id < w'.nextPipe → q = p ∨ q = w.nextProc) ∧
      (∀ next flags', next.Creates flags' → NothingToInherit p w'' next →
        ∀ t, TableAtFork p w'' flags' t → ∀ n id side, t.get n = some (.pipe id side) →
          w.nextPipe ≤ id → w'.nextPipe ≤ id) ∧
      ∀ s, flags.has s = true → ∀ q img n, w''.procs q = some img →
        img.table.get n = some (.pipe (ids s) s.parentEnd) → q = p := by
  obtain ⟨hw, -⟩ := kept_run hrun ⟨hstart, .start hstart⟩
  have hfork : ForkStep w (.fork p flags) w' := by
    obtain ⟨hstep, -⟩ := hcall
    rcases hl with rfl | rfl
    · cases hstep with
      | fork h => exact h
    · cases hstep with
      | exec h => exact h
  obtain ⟨ids, before, after, child, object, hwired, hprivate⟩ := privateTo_of_call hw hfork
  have hkept' : w'.WellFormed ∧ OwnedEnds p w.nextPipe w' :=
    CallerStep.kept hcall.1 ⟨hw, .start hw⟩
  have hlast := privateTo_run hlater hkept' hprivate
  refine ⟨ids, before, after, child, object, hwired, ?_, ?_, ?_⟩
  · intro q img n id side hq hd hge hlt
    by_cases hqp : q = p
    · exact .inl hqp
    · exact .inr (hlast.held q img n id side hqp hq hd hge hlt).1
  · intro next flags' hnext hnothing t ht n id side hd hge
    obtain ⟨-, howned''⟩ := kept_run hlater hkept'
    exact hlast.old.trans (howned''.tableAtFork hnext hnothing ht hd hge)
  · intro s hs q img n hq hd
    by_contra hqp
    obtain ⟨hge, hlt⟩ := hwired.made s hs
    obtain ⟨-, s', hs', hid, hside⟩ := hlast.held q img n _ _ hqp hq hd hge hlt
    obtain rfl := hwired.distinct s s' hs hs' hid
    exact s.parentEnd_ne_childEnd hside

/-- A process with nothing open but 0, 1 and 2, which are no pipes. -/
def stdioImage : ProcImage :=
  ⟨((FdTable.empty.set 0 (.other 0)).set 1 (.other 1)).set 2 (.other 2), false, []⟩

def stdioWorld : ForkWorld where
  procs := Function.update (fun _ => none) 0 (some stdioImage)
  nextProc := 1
  born := []
  nextPipe := 0

theorem stdioWorld_wellFormed : stdioWorld.WellFormed where
  pipes p img n id side hp hd := by
    have hp' : Function.update (fun _ => none) 0 (some stdioImage) p = some img := hp
    rcases update_cases hp' with ⟨-, ⟨⟩⟩ | ⟨-, hnone⟩
    · rcases FdTable.get_of_set hd with hother | hd
      · cases hother
      rcases FdTable.get_of_set hd with hother | hd
      · cases hother
      rcases FdTable.get_of_set hd with hother | hd
      · cases hother
      cases hd
    · cases hnone
  procs p hp := by
    show Function.update (fun _ => none) 0 (some stdioImage) p = none
    exact Function.update_of_ne (Nat.ne_of_gt hp) ..

/-- A caller without living objects has nothing for a child to inherit. -/
theorem nothingToInherit_of_nil {p : Nat} {w : ForkWorld} {img : ProcImage}
    (hp : w.procs p = some img) (hobjects : img.objects = []) (l : CallerLabel) :
    NothingToInherit p w l := by
  intro flags _ img' hp' object hmem
  cases hp.symm.trans hp'
  rw [hobjects] at hmem
  exact absurd hmem List.not_mem_nil

/-- A child whose `stdin` is redirected, its object dropped, and a program that is executed
with its `stdin` redirected. -/
theorem pipes_private_dropped :
    ∃ w' w'', ((callerSystem 0).restrict (NothingToInherit 0)).step stdioWorld (.fork ⟨1⟩) w' ∧
      ((callerSystem 0).restrict (NothingToInherit 0)).Run w' [.drop 0, .exec ⟨1⟩] w'' ∧
      ∃ ids : Stream → Nat, ∀ s, StandardStream.has ⟨1⟩ s = true →
        ∀ q img n, w''.procs q = some img →
          img.table.get n = some (.pipe (ids s) s.parentEnd) → q = 0 := by
  obtain ⟨w', hfork⟩ := exists_fork_step (w := stdioWorld) (p := 0) rfl ⟨1⟩
  obtain ⟨ids, before, after, child, object, hwired, -, -⟩ :=
    callWired_of_step stdioWorld_wellFormed hfork
  cases hwired.caller
  have hcall : ((callerSystem 0).restrict (NothingToInherit 0)).step stdioWorld (.fork ⟨1⟩) w' :=
    ⟨.fork hfork, nothingToInherit_of_nil rfl rfl _⟩
  obtain ⟨w₁, img₁, hdrop, hw₁, hempty⟩ : ∃ w₁ img₁, ForkStep w' (.drop 0 0) w₁ ∧
      w₁.procs 0 = some img₁ ∧ img₁.objects = [] := by
    have hobject : after.objects[0]? = some object := by
      rw [hwired.returned]
      rfl
    refine ⟨_, _, .drop hwired.parent hobject, rfl, ?_⟩
    show after.objects.eraseIdx 0 = []
    rw [hwired.returned]
    rfl
  obtain ⟨w'', hexec⟩ := exists_fork_step hw₁ ⟨1⟩
  have hlater : ((callerSystem 0).restrict (NothingToInherit 0)).Run w' [.drop 0, .exec ⟨1⟩] w'' :=
    .cons ⟨.drop hdrop, fun flags hl => hl.elim nofun nofun⟩
      (.cons ⟨.exec hexec, nothingToInherit_of_nil hw₁ hempty _⟩ (.nil _))
  obtain ⟨ids, -, -, -, -, -, -, -, honly⟩ :=
    pipes_private stdioWorld_wellFormed (.nil _) (.inl rfl) hcall hlater
  exact ⟨w', w'', hcall, hlater, ids, honly⟩

/-- What the caller has at a number that the call does not redirect, the new child has. -/
theorem inherits_of_call {p : Nat} {w w' : ForkWorld} {flags : StandardStream}
    (h : ForkStep w (.fork p flags) w') :
    ∃ img child, w.procs p = some img ∧ w'.procs w.nextProc = some child ∧
      Inherits flags img.table child.table := by
  cases h with
  | @fork _ img _ object ps kc k' hp hfork =>
    obtain ⟨ids, -, -, -, -, hinherits⟩ := fork_wired hfork
    exact ⟨img, _, hp, Function.update_self .., hinherits⟩

/-- With the object of a first child alive, a second child that is executed holds the write
end of the first one's `stdin`. -/
theorem inherited_stdin :
    ∃ w' w'' first second id n, (callerSystem 0).Run stdioWorld [.fork ⟨1⟩, .exec ⟨0⟩] w'' ∧
      (callerSystem 0).step stdioWorld (.fork ⟨1⟩) w' ∧
      w'.procs 1 = some first ∧ first.table.get 0 = some (.pipe id .read) ∧ id < w'.nextPipe ∧
      w''.procs 2 = some second ∧ second.table.get n = some (.pipe id .write) := by
  obtain ⟨w', hfork⟩ := exists_fork_step (w := stdioWorld) (p := 0) rfl ⟨1⟩
  obtain ⟨ids, before, after, child, object, hwired, -, -⟩ :=
    callWired_of_step stdioWorld_wellFormed hfork
  obtain ⟨n, -, hend⟩ := hwired.parent_end .stdin rfl
  obtain ⟨w'', hexec⟩ := exists_fork_step hwired.parent ⟨0⟩
  obtain ⟨img, second, hparent, hsecond, hinherits⟩ := inherits_of_call hexec
  cases hwired.parent.symm.trans hparent
  have hnext : w'.nextProc = 2 := by
    cases hfork
    rfl
  refine ⟨w', w'', child, second, ids .stdin, n, .cons (.fork hfork) (.cons (.exec hexec) (.nil _)),
    .fork hfork, hwired.forked, hwired.child_end .stdin rfl, (hwired.made .stdin rfl).2,
    hnext ▸ hsecond, hinherits n _ hend ?_⟩
  intro s hs
  cases s <;> cases hs

end ProcessCpp.Core
