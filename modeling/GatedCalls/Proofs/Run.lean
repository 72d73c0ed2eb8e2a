import GatedCalls.Run

/-!
# How runs end

What a run does is said by `Run.Ends`: from a disk it ends in a result and leaves a disk. What it
reports is left open. Runs are put together as their results and disks are, one rule for each thing
that a run is made of. A run ends in one way only (`Ends.unique`), and where the disk alone settles
in which (`IsSettled`), a run that has ended with a value can be taken apart
(`Ends.exists_of_bind`). A run that only reads leaves the disk as it is, also where it fails
(`OnlyReads`).
-/

namespace GatedCalls.Run

/-- Whether a run that starts on the disk `d` ends in the given result and leaves the disk `d'`,
whatever was reported before. -/
def Ends {α : Type} (x : Run α) (d : Disk) (result : Except Failure α) (d' : Disk) : Prop :=
  ∀ log, ∃ log', x.run.run ⟨d, log⟩ = (result, ⟨d', log'⟩)

variable {α β : Type} {x : Run α} {d d' d'' : Disk} {a : α}

/-- A value is a run that leaves the disk as it is. -/
theorem ends_pure (a : α) (d : Disk) : (pure a : Run α).Ends d (.ok a) d :=
  fun log => ⟨log, rfl⟩

/-- After a value the run goes on with it. -/
theorem Ends.bind {f : α → Run β} {result : Except Failure β} (hx : x.Ends d (.ok a) d')
    (hf : (f a).Ends d' result d'') : (x >>= f).Ends d result d'' := by
  intro log
  obtain ⟨log', hx⟩ := hx log
  obtain ⟨log'', hf⟩ := hf log'
  refine ⟨log'', ?_⟩
  rw [ExceptT.run_bind, StateT.run_bind, hx]
  exact hf

/-- Reporting leaves the disk as it is. -/
theorem ends_report (level : Log.Level) (topic : Log.Topic) (text : String) (d : Disk) :
    (report level topic text).Ends d (.ok ()) d :=
  fun _ => ⟨_, rfl⟩

/-- A run knows its disk. -/
theorem ends_disk (d : Disk) : disk.Ends d (.ok d) d :=
  fun log => ⟨log, rfl⟩

/-- A result is a run that leaves the disk as it is. -/
theorem ends_ofExcept (result : Except Failure α) (d : Disk) :
    (ofExcept result).Ends d result d := by
  cases result <;> exact fun log => ⟨log, rfl⟩

/-- What can be read is read. -/
theorem ends_reading {read : Disk → Except Disk.Fault α} (h : read d = .ok a)
    (cause : Disk.Fault → Cause) : (reading read cause).Ends d (.ok a) d := by
  refine (ends_disk d).bind ?_
  rw [h]
  exact ends_pure a d

/-- A change that is possible is made. -/
theorem ends_changing {change : Disk → Except Disk.Fault Disk} (h : change d = .ok d')
    (cause : Disk.Fault → Cause) : (changing change cause).Ends d (.ok ()) d' := by
  refine (ends_disk d).bind ?_
  rw [h]
  exact fun log => ⟨log, rfl⟩

/-- Directories that can be made are made. -/
theorem ends_makeDirectories {p : Disk.Path} (h : d.makeDirectories p = (.ok (), d')) :
    (makeDirectories p).Ends d (.ok ()) d' := by
  refine (ends_disk d).bind ?_
  rw [h]
  exact fun log => ⟨log, rfl⟩

/-- A run that does not fail is not handled. -/
theorem Ends.tryCatch (h : x.Ends d (.ok a) d') (handle : Failure → Run α) :
    (tryCatch x handle).Ends d (.ok a) d' := by
  intro log
  obtain ⟨log', h⟩ := h log
  refine ⟨log', ?_⟩
  rw [ExceptT.run_tryCatch, StateT.run_bind, h]
  rfl

/-- A run that does not fail has no place to be named. -/
theorem Ends.within (h : x.Ends d (.ok a) d') (place : String) :
    (x.within place).Ends d (.ok a) d' :=
  h.tryCatch _

/-- Values that are each read from what stands for them are read one after the other. -/
theorem ends_mapM_map {f : β → Run α} {g : α → β} {as : List α}
    (h : ∀ a ∈ as, (f (g a)).Ends d (.ok a) d) : ((as.map g).mapM f).Ends d (.ok as) d := by
  induction as with
  | nil => exact ends_pure [] d
  | cons a as ih =>
    obtain ⟨ha, has⟩ := List.forall_mem_cons.mp h
    rw [List.map_cons, List.mapM_cons]
    exact ha.bind ((ih has).bind (ends_pure (a :: as) d))

/-- One run after the other is done where each leaves the disk as it is. -/
theorem ends_forM {f : β → Run PUnit} {bs : List β} (h : ∀ b ∈ bs, (f b).Ends d (.ok ⟨⟩) d) :
    (forM bs f).Ends d (.ok ⟨⟩) d := by
  induction bs with
  | nil => exact ends_pure PUnit.unit d
  | cons b bs ih =>
    obtain ⟨hb, hbs⟩ := List.forall_mem_cons.mp h
    rw [List.forM_cons]
    exact hb.bind (ih hbs)

/-! ### Failures -/

/-- A run ends in one way only. -/
theorem Ends.unique {result result' : Except Failure α} (h : x.Ends d result d')
    (h' : x.Ends d result' d'') : result = result' ∧ d' = d'' := by
  obtain ⟨log', h⟩ := h #[]
  obtain ⟨log'', h'⟩ := h' #[]
  obtain ⟨hresult, hworkspace⟩ := Prod.mk.inj (h.symm.trans h')
  exact ⟨hresult, congrArg Workspace.disk hworkspace⟩

/-- After a failure the run does not go on. -/
theorem Ends.bind_error {f : α → Run β} {e : Failure} (hx : x.Ends d (.error e) d') :
    (x >>= f).Ends d (.error e) d' := by
  intro log
  obtain ⟨log', hx⟩ := hx log
  refine ⟨log', ?_⟩
  rw [ExceptT.run_bind, StateT.run_bind, hx]
  rfl

/-- One run after the other ends where the first of them fails. -/
theorem ends_forM_error {f : β → Run PUnit} {ahead behind : List β} {b : β} {e : Failure}
    (hahead : ∀ x ∈ ahead, (f x).Ends d (.ok ⟨⟩) d) (hb : (f b).Ends d (.error e) d) :
    (forM (ahead ++ b :: behind) f).Ends d (.error e) d := by
  induction ahead with
  | nil =>
    rw [List.nil_append, List.forM_cons]
    exact hb.bind_error
  | cons x ahead ih =>
    obtain ⟨hx, hahead⟩ := List.forall_mem_cons.mp hahead
    rw [List.cons_append, List.forM_cons]
    exact hx.bind (ih hahead)

/-- A failure is a run that leaves the disk as it is. -/
theorem ends_throw (e : Failure) (d : Disk) : (throw e : Run α).Ends d (.error e) d :=
  fun log => ⟨log, rfl⟩

/-- After a failure the run goes on with what handles it. -/
theorem Ends.tryCatch_error {e : Failure} {handle : Failure → Run α} {result : Except Failure α}
    (h : x.Ends d (.error e) d') (hhandle : (handle e).Ends d' result d'') :
    (MonadExcept.tryCatch x handle).Ends d result d'' := by
  intro log
  obtain ⟨log', h⟩ := h log
  obtain ⟨log'', hhandle⟩ := hhandle log'
  refine ⟨log'', ?_⟩
  rw [ExceptT.run_tryCatch, StateT.run_bind, h]
  exact hhandle

/-- Taking over what was reported leaves the disk as it is. -/
theorem ends_ofLogged (x : Logged α) (d : Disk) : (ofLogged x).Ends d (.ok x.value) d :=
  fun _ => ⟨_, rfl⟩

/-- What cannot be read is a failure, and the disk is as it was. -/
theorem ends_reading_error {read : Disk → Except Disk.Fault α} {fault : Disk.Fault}
    (h : read d = .error fault) (cause : Disk.Fault → Cause) :
    (reading read cause).Ends d (.error (cause fault).failure) d := by
  refine (ends_disk d).bind ?_
  rw [h]
  exact ends_throw _ d

/-- A change that is not possible is a failure, and the disk is as it was. -/
theorem ends_changing_error {change : Disk → Except Disk.Fault Disk} {fault : Disk.Fault}
    (h : change d = .error fault) (cause : Disk.Fault → Cause) :
    (changing change cause).Ends d (.error (cause fault).failure) d := by
  refine (ends_disk d).bind ?_
  rw [h]
  exact ends_throw _ d

/-- Where directories cannot be made some of them may have been. -/
theorem ends_makeDirectories_error {p : Disk.Path} {fault : Disk.Fault}
    (h : d.makeDirectories p = (.error fault, d')) :
    (makeDirectories p).Ends d (.error (Cause.creatingDirectory p.text fault).failure) d' := by
  refine (ends_disk d).bind ?_
  rw [h]
  exact fun log => ⟨log, rfl⟩

/-! ### Runs that the disk settles -/

/-- Whether the disk alone settles how a run ends, not what was reported before. -/
def IsSettled (x : Run α) : Prop :=
  ∀ d, ∃ result d', x.Ends d result d'

/-- Whether a run leaves every disk as it is, and the disk settles how it ends. -/
def OnlyReads (x : Run α) : Prop :=
  ∀ d, ∃ result, x.Ends d result d

/-- How a run that only reads ends is settled. -/
theorem OnlyReads.isSettled (h : x.OnlyReads) : x.IsSettled := fun d => by
  obtain ⟨result, hresult⟩ := h d
  exact ⟨result, d, hresult⟩

/-- Runs that only read, one after the other, only read. -/
theorem OnlyReads.bind {f : α → Run β} (hx : x.OnlyReads) (hf : ∀ a, (f a).OnlyReads) :
    (x >>= f).OnlyReads := by
  intro d
  obtain ⟨result, hx⟩ := hx d
  cases result with
  | error e => exact ⟨.error e, hx.bind_error⟩
  | ok a =>
    obtain ⟨result, hf⟩ := hf a d
    exact ⟨result, hx.bind hf⟩

/-- Settled runs, one after the other, are settled. -/
theorem IsSettled.bind {f : α → Run β} (hx : x.IsSettled) (hf : ∀ a, (f a).IsSettled) :
    (x >>= f).IsSettled := by
  intro d
  obtain ⟨result, d', hx⟩ := hx d
  cases result with
  | error e => exact ⟨.error e, d', hx.bind_error⟩
  | ok a =>
    obtain ⟨result, d'', hf⟩ := hf a d'
    exact ⟨result, d'', hx.bind hf⟩

/-- A value only reads. -/
theorem onlyReads_pure (a : α) : (pure a : Run α).OnlyReads :=
  fun d => ⟨.ok a, ends_pure a d⟩

/-- A failure only reads. -/
theorem onlyReads_throw (e : Failure) : (throw e : Run α).OnlyReads :=
  fun d => ⟨.error e, ends_throw e d⟩

/-- A report only reads. -/
theorem onlyReads_report (level : Log.Level) (topic : Log.Topic) (text : String) :
    (report level topic text).OnlyReads :=
  fun d => ⟨.ok (), ends_report level topic text d⟩

/-- A look at the disk only reads. -/
theorem onlyReads_disk : disk.OnlyReads :=
  fun d => ⟨.ok d, ends_disk d⟩

/-- A result only reads. -/
theorem onlyReads_ofExcept (result : Except Failure α) : (ofExcept result).OnlyReads :=
  fun d => ⟨result, ends_ofExcept result d⟩

/-- A value with what was reported only reads. -/
theorem onlyReads_ofLogged (x : Logged α) : (ofLogged x).OnlyReads :=
  fun d => ⟨.ok x.value, ends_ofLogged x d⟩

/-- Reading only reads. -/
theorem onlyReads_reading (read : Disk → Except Disk.Fault α) (cause : Disk.Fault → Cause) :
    (reading read cause).OnlyReads := fun d => by
  cases h : read d with
  | ok a => exact ⟨.ok a, ends_reading h cause⟩
  | error fault => exact ⟨_, ends_reading_error h cause⟩

/-- A run with a place to be named only reads if it does without. -/
theorem OnlyReads.within (h : x.OnlyReads) (place : String) : (x.within place).OnlyReads := fun d => by
  obtain ⟨result, hx⟩ := h d
  cases result with
  | ok a => exact ⟨.ok a, hx.within place⟩
  | error e => exact ⟨.error (e.within place), hx.tryCatch_error (ends_throw _ d)⟩

/-- Reading for one thing after the other only reads. -/
theorem onlyReads_mapM {f : β → Run α} (h : ∀ b, (f b).OnlyReads) (bs : List β) :
    (bs.mapM f).OnlyReads := by
  induction bs with
  | nil => exact onlyReads_pure []
  | cons b bs ih =>
    rw [List.mapM_cons]
    exact (h b).bind fun a => ih.bind fun as => onlyReads_pure (a :: as)

/-- Reading one thing after the other into what is known only reads. -/
theorem onlyReads_foldlM {f : α → β → Run α} (h : ∀ a b, (f a b).OnlyReads) (bs : List β) (a : α) :
    (bs.foldlM f a).OnlyReads := by
  induction bs generalizing a with
  | nil => exact onlyReads_pure a
  | cons b bs ih =>
    rw [List.foldlM_cons]
    exact (h a b).bind ih

/-- One run after the other only reads if each does. -/
theorem onlyReads_forM {f : β → Run PUnit} (h : ∀ b, (f b).OnlyReads) (bs : List β) :
    (forM bs f).OnlyReads := by
  induction bs with
  | nil => exact onlyReads_pure PUnit.unit
  | cons b bs ih =>
    rw [List.forM_cons]
    exact (h b).bind fun _ => ih

/-- How a change ends is settled. -/
theorem isSettled_changing (change : Disk → Except Disk.Fault Disk) (cause : Disk.Fault → Cause) :
    (changing change cause).IsSettled := fun d => by
  cases h : change d with
  | ok d' => exact ⟨.ok (), d', ends_changing h cause⟩
  | error fault => exact ⟨_, d, ends_changing_error h cause⟩

/-- How making directories ends is settled. -/
theorem isSettled_makeDirectories (p : Disk.Path) : (makeDirectories p).IsSettled := fun d => by
  cases h : d.makeDirectories p with
  | mk result d' =>
    cases result with
    | ok a => exact ⟨.ok (), d', ends_makeDirectories h⟩
    | error fault => exact ⟨_, d', ends_makeDirectories_error h⟩

/-- How a run with its failures handled ends is settled. -/
theorem IsSettled.tryCatch {handle : Failure → Run α} (hx : x.IsSettled)
    (hhandle : ∀ e, (handle e).IsSettled) : (MonadExcept.tryCatch x handle).IsSettled := fun d => by
  obtain ⟨result, d', hx⟩ := hx d
  cases result with
  | ok a => exact ⟨.ok a, d', hx.tryCatch handle⟩
  | error e =>
    obtain ⟨result, d'', hhandle⟩ := hhandle e d'
    exact ⟨result, d'', hx.tryCatch_error hhandle⟩

/-- How one run after the other ends is settled. -/
theorem isSettled_forM {f : β → Run PUnit} (h : ∀ b, (f b).IsSettled) (bs : List β) :
    (forM bs f).IsSettled := by
  induction bs with
  | nil => exact (onlyReads_pure PUnit.unit).isSettled
  | cons b bs ih =>
    rw [List.forM_cons]
    exact (h b).bind fun _ => ih

/-! ### Taking runs apart -/

/-- A run that goes on after another one has ended in the failure of that one, or has gone on with
its value. -/
theorem Ends.cases_of_bind {f : α → Run β} {result : Except Failure β}
    (h : (x >>= f).Ends d result d'') (hx : x.IsSettled) (hf : ∀ a, (f a).IsSettled) :
    (∃ e, result = .error e ∧ x.Ends d (.error e) d'') ∨
      ∃ a d', x.Ends d (.ok a) d' ∧ (f a).Ends d' result d'' := by
  obtain ⟨first, d', hx⟩ := hx d
  cases first with
  | error e =>
    obtain ⟨rfl, rfl⟩ := h.unique hx.bind_error
    exact .inl ⟨e, rfl, hx⟩
  | ok a =>
    obtain ⟨second, d₂, hf⟩ := hf a d'
    obtain ⟨rfl, rfl⟩ := h.unique (hx.bind hf)
    exact .inr ⟨a, d', hx, hf⟩

/-- A run that goes on after another one and ends with a value does so after a value. -/
theorem Ends.exists_of_bind {f : α → Run β} {b : β} (h : (x >>= f).Ends d (.ok b) d'')
    (hx : x.IsSettled) (hf : ∀ a, (f a).IsSettled) :
    ∃ a d', x.Ends d (.ok a) d' ∧ (f a).Ends d' (.ok b) d'' := by
  obtain ⟨e, hresult, -⟩ | hvalue := h.cases_of_bind hx hf
  · cases hresult
  · exact hvalue

/-- A run that goes on after one that only reads has left the disk as it is, or has gone on from
there. -/
theorem Ends.cases_of_bind_onlyReads {f : α → Run β} {result : Except Failure β}
    (h : (x >>= f).Ends d result d') (hx : x.OnlyReads) (hf : ∀ a, (f a).IsSettled) :
    (∃ e, result = .error e ∧ d' = d) ∨ ∃ a, x.Ends d (.ok a) d ∧ (f a).Ends d result d' := by
  obtain ⟨first, hsame⟩ := hx d
  obtain ⟨e, rfl, hfirst⟩ | ⟨a, d₁, hfirst, hrest⟩ := h.cases_of_bind hx.isSettled hf
  · exact .inl ⟨e, rfl, (hfirst.unique hsame).2⟩
  · obtain ⟨-, rfl⟩ := hfirst.unique hsame
    exact .inr ⟨a, hfirst, hrest⟩

/-- Where what comes first only reads, the run goes on from the same disk. -/
theorem Ends.exists_of_bind_onlyReads {f : α → Run β} {b : β} (h : (x >>= f).Ends d (.ok b) d')
    (hx : x.OnlyReads) (hf : ∀ a, (f a).IsSettled) :
    ∃ a, x.Ends d (.ok a) d ∧ (f a).Ends d (.ok b) d' := by
  obtain ⟨e, hresult, -⟩ | hvalue := h.cases_of_bind_onlyReads hx hf
  · cases hresult
  · exact hvalue

/-- A run with its failures handled has ended with a value by itself, or as what handles its
failure. -/
theorem Ends.cases_of_tryCatch {handle : Failure → Run α} {result : Except Failure α}
    (h : (MonadExcept.tryCatch x handle).Ends d result d'') (hx : x.IsSettled)
    (hhandle : ∀ e, (handle e).IsSettled) :
    (∃ a, result = .ok a ∧ x.Ends d (.ok a) d'') ∨
      ∃ e d', x.Ends d (.error e) d' ∧ (handle e).Ends d' result d'' := by
  obtain ⟨first, d', hx⟩ := hx d
  cases first with
  | ok a =>
    obtain ⟨rfl, rfl⟩ := h.unique (hx.tryCatch handle)
    exact .inl ⟨a, rfl, hx⟩
  | error e =>
    obtain ⟨second, d₂, hhandled⟩ := hhandle e d'
    obtain ⟨rfl, rfl⟩ := h.unique (hx.tryCatch_error hhandled)
    exact .inr ⟨e, d', hx, hhandled⟩

/-- A change was made if it was possible. If not, the disk is as it was. -/
theorem cases_of_ends_changing {change : Disk → Except Disk.Fault Disk} {cause : Disk.Fault → Cause}
    {result : Except Failure Unit} (h : (changing change cause).Ends d result d') :
    (result = .ok () ∧ change d = .ok d') ∨
      ∃ fault, result = .error (cause fault).failure ∧ change d = .error fault ∧ d' = d := by
  cases hchange : change d with
  | ok changed =>
    obtain ⟨rfl, rfl⟩ := h.unique (ends_changing hchange cause)
    exact .inl ⟨rfl, rfl⟩
  | error fault =>
    obtain ⟨rfl, rfl⟩ := h.unique (ends_changing_error hchange cause)
    exact .inr ⟨fault, rfl, rfl, rfl⟩

/-- A change that was made was possible. -/
theorem eq_ok_of_ends_changing {change : Disk → Except Disk.Fault Disk} {cause : Disk.Fault → Cause}
    (h : (changing change cause).Ends d (.ok ()) d') : change d = .ok d' := by
  obtain ⟨-, hchange⟩ | ⟨fault, hresult, -⟩ := cases_of_ends_changing h
  · exact hchange
  · cases hresult

/-- Directories were made as far as it was possible. -/
theorem exists_of_ends_makeDirectories {p : Disk.Path} {result : Except Failure Unit}
    (h : (makeDirectories p).Ends d result d') :
    ∃ made, d.makeDirectories p = (made, d') ∧
      result = made.mapError fun fault => (Cause.creatingDirectory p.text fault).failure := by
  cases hmake : d.makeDirectories p with
  | mk made d₁ =>
    cases made with
    | ok a =>
      obtain ⟨rfl, rfl⟩ := h.unique (ends_makeDirectories hmake)
      exact ⟨.ok (), rfl, rfl⟩
    | error fault =>
      obtain ⟨rfl, rfl⟩ := h.unique (ends_makeDirectories_error hmake)
      exact ⟨.error fault, rfl, rfl⟩

/-- Directories that were made could be made. -/
theorem eq_ok_of_ends_makeDirectories {p : Disk.Path} (h : (makeDirectories p).Ends d (.ok ()) d') :
    d.makeDirectories p = (.ok (), d') := by
  obtain ⟨made, hmake, hresult⟩ := exists_of_ends_makeDirectories h
  cases made with
  | ok a => exact hmake
  | error fault => cases hresult

end GatedCalls.Run
