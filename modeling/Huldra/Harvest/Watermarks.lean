import Huldra.Store.Oai
import Mathlib

/-!
# Watermarks — writes of a watermark form a join

`set_oai_watermark` merges each of its two dates into the stored row by a `CASE` of its own.  With
a missing date as the bottom of the order, that merge is the maximum; so the row a scope ends with
is the maximum of all that was ever written for it, in whatever order the writes came.
-/

namespace Huldra
namespace OaiTables

/-! ## The merge of one date -/

/-- A date that may be missing, in the order that puts a missing one first. -/
def dayRank (day : Option Int) : WithBot Int :=
  day

theorem dayRank_newerDay (excluded stored : Option Int) :
    dayRank (newerDay excluded stored) = max (dayRank excluded) (dayRank stored) := by
  cases excluded with
  | none => exact (max_eq_right bot_le).symm
  | some d =>
      cases stored with
      | none => exact (max_eq_left bot_le).symm
      | some s =>
          by_cases h : s ≤ d
          · have hmax := max_eq_left (WithBot.coe_le_coe.2 h)
            simp only [newerDay, if_pos h]
            exact hmax.symm
          · have hmax := max_eq_right (WithBot.coe_le_coe.2 (not_le.1 h).le)
            simp only [newerDay, if_neg h]
            exact hmax.symm

/-- All the dates of a list merged into a stored one, the earliest write first. -/
def mergedDays (stored : Option Int) (written : List (Option Int)) : Option Int :=
  written.foldl (fun s d => newerDay d s) stored

theorem dayRank_le_mergedDays {stored day : Option Int} {written : List (Option Int)}
    (h : day ∈ stored :: written) : dayRank day ≤ dayRank (mergedDays stored written) := by
  induction written generalizing stored day with
  | nil =>
      cases List.mem_singleton.1 h
      exact le_rfl
  | cons d rest ih =>
      have hmerged : dayRank (newerDay d stored) ≤ dayRank (mergedDays stored (d :: rest)) :=
        ih List.mem_cons_self
      rw [dayRank_newerDay] at hmerged
      rcases List.mem_cons.1 h with rfl | h
      · exact (le_max_right _ _).trans hmerged
      · rcases List.mem_cons.1 h with rfl | h
        · exact (le_max_left _ _).trans hmerged
        · exact ih (List.mem_cons_of_mem _ h)

theorem mergedDays_mem (stored : Option Int) (written : List (Option Int)) :
    mergedDays stored written ∈ stored :: written := by
  induction written generalizing stored with
  | nil => exact List.mem_cons_self
  | cons d rest ih =>
      rcases List.mem_cons.1 (ih (newerDay d stored)) with heq | hmem
      · have hchoice : newerDay d stored = d ∨ newerDay d stored = stored := by
          cases d <;> cases stored <;> simp [newerDay]
          omega
        change mergedDays (newerDay d stored) rest ∈ stored :: d :: rest
        rw [heq]
        rcases hchoice with hd | hs
        · simp [hd]
        · simp [hs]
      · exact List.mem_cons_of_mem _ (List.mem_cons_of_mem _ hmem)

/-- The largest date of a list, none if it has none. -/
def IsLatest (days : List (Option Int)) : Option Int → Prop
  | none => ∀ day ∈ days, day = none
  | some d => IsGreatest {e | some e ∈ days} d

theorem mergedDays_isLatest (stored : Option Int) (written : List (Option Int)) :
    IsLatest (stored :: written) (mergedDays stored written) := by
  have hmem := mergedDays_mem stored written
  have hle : ∀ day ∈ stored :: written, dayRank day ≤ dayRank (mergedDays stored written) :=
    fun day hday => dayRank_le_mergedDays hday
  cases hmerged : mergedDays stored written with
  | none =>
      intro day hday
      have hbot := hle day hday
      rw [hmerged] at hbot
      exact le_bot_iff.1 hbot
  | some d =>
      rw [hmerged] at hmem hle
      exact ⟨hmem, fun e he => WithBot.coe_le_coe.1 (hle (some e) he)⟩

theorem IsLatest.unique {days : List (Option Int)} {d e : Option Int} (hd : IsLatest days d)
    (he : IsLatest days e) : d = e := by
  cases d with
  | none =>
      cases e with
      | none => rfl
      | some e => exact absurd (hd _ he.1) (by simp)
  | some d =>
      cases e with
      | none => exact absurd (he _ hd.1) (by simp)
      | some e => exact congrArg some (IsGreatest.unique hd he)

theorem IsLatest.perm {days days' : List (Option Int)} {d : Option Int}
    (h : IsLatest days d) (hperm : days.Perm days') : IsLatest days' d := by
  cases d with
  | none => exact fun day hday => h day (hperm.mem_iff.2 hday)
  | some d =>
      have hset : {e | some e ∈ days'} = {e | some e ∈ days} := by
        ext e
        exact hperm.mem_iff.symm
      rw [IsLatest, hset]
      exact h

/-! ## Sequences of writes -/

/-- The arguments of one `set_oai_watermark`, and the time it reads. -/
structure WatermarkWrite where
  metadataPrefix : OaiMetadataPrefix
  setSpec : Option String
  lastResponseDate : Option Int
  lastDatestampSeen : Option Int
  harvestId : Uuid
  timestamp : Int
  deriving DecidableEq, Repr

def WatermarkWrite.scope (w : WatermarkWrite) : WatermarkKey :=
  ⟨w.metadataPrefix, oaiSetKey w.setSpec⟩

def writeWatermark (o : OaiTables) (w : WatermarkWrite) : OaiTables :=
  o.setOaiWatermark w.scope w.lastResponseDate w.lastDatestampSeen w.harvestId w.timestamp

def writeWatermarks (o : OaiTables) (writes : List WatermarkWrite) : OaiTables :=
  writes.foldl writeWatermark o

/-- The two dates of a watermark. -/
inductive WatermarkDate where
  | lastResponseDate
  | lastDatestampSeen

namespace WatermarkDate

/-- What a write gives for the date. -/
def given : WatermarkDate → WatermarkWrite → Option Int
  | .lastResponseDate, w => w.lastResponseDate
  | .lastDatestampSeen, w => w.lastDatestampSeen

/-- What `get_oai_watermark` reads for the date: nothing where the scope has no row. -/
def stored (date : WatermarkDate) (o : OaiTables) (scope : WatermarkKey) : Option Int :=
  match date with
  | .lastResponseDate => (o.watermarks scope).bind (·.lastResponseDate)
  | .lastDatestampSeen => (o.watermarks scope).bind (·.lastDatestampSeen)

/-- What a list of writes gives for the date of one scope. -/
def givenFor (date : WatermarkDate) (scope : WatermarkKey) (writes : List WatermarkWrite) :
    List (Option Int) :=
  (writes.filter fun w => w.scope = scope).map date.given

theorem stored_writeWatermark_self (date : WatermarkDate) (o : OaiTables) (w : WatermarkWrite) :
    date.stored (o.writeWatermark w) w.scope = newerDay (date.given w) (date.stored o w.scope) := by
  have hfresh : ∀ day, newerDay day none = day := by
    intro day
    cases day <;> rfl
  cases date with
  | lastResponseDate =>
      cases h : o.watermarks w.scope <;>
        simp [stored, given, writeWatermark, setOaiWatermark, h, hfresh]
  | lastDatestampSeen =>
      cases h : o.watermarks w.scope <;>
        simp [stored, given, writeWatermark, setOaiWatermark, h, hfresh]

end WatermarkDate

/-- A write leaves the rows of the other scopes as they are. -/
theorem watermarks_writeWatermark_of_ne (o : OaiTables) {w : WatermarkWrite}
    {scope : WatermarkKey} (h : w.scope ≠ scope) :
    (o.writeWatermark w).watermarks scope = o.watermarks scope :=
  Function.update_of_ne (Ne.symm h) _ _

theorem WatermarkDate.stored_writeWatermark_of_ne (date : WatermarkDate) (o : OaiTables)
    {w : WatermarkWrite} {scope : WatermarkKey} (h : w.scope ≠ scope) :
    date.stored (o.writeWatermark w) scope = date.stored o scope := by
  have hrow := watermarks_writeWatermark_of_ne o h
  cases date <;> simp only [stored, hrow]

/-- The date a scope ends with is its old one and all that was written for it, merged. -/
theorem WatermarkDate.stored_writeWatermarks (date : WatermarkDate) (o : OaiTables)
    (scope : WatermarkKey) (writes : List WatermarkWrite) :
    date.stored (o.writeWatermarks writes) scope =
      mergedDays (date.stored o scope) (date.givenFor scope writes) := by
  induction writes generalizing o with
  | nil => rfl
  | cons w rest ih =>
      change date.stored ((o.writeWatermark w).writeWatermarks rest) scope = _
      rw [ih]
      by_cases h : w.scope = scope
      · subst h
        rw [stored_writeWatermark_self]
        simp [givenFor, mergedDays]
      · rw [stored_writeWatermark_of_ne date o h]
        simp [givenFor, h]

theorem watermarks_writeWatermarks_of_ne {o : OaiTables} {writes : List WatermarkWrite}
    {scope : WatermarkKey} (h : ∀ w ∈ writes, w.scope ≠ scope) :
    (o.writeWatermarks writes).watermarks scope = o.watermarks scope := by
  induction writes generalizing o with
  | nil => rfl
  | cons w rest ih =>
      calc
        ((o.writeWatermark w).writeWatermarks rest).watermarks scope
            = (o.writeWatermark w).watermarks scope :=
          ih fun w' hw' => h w' (List.mem_cons_of_mem _ hw')
        _ = o.watermarks scope := watermarks_writeWatermark_of_ne o (h w List.mem_cons_self)

/-! ## The join -/

/-- Whatever writes come for whatever scopes: each date of a scope ends as the largest of its old
value and all values given for it; no write takes a date back; another order of the same writes
ends with the same dates; and a scope nothing is written for keeps its row. -/
theorem watermark_writes_join (o : OaiTables) (writes : List WatermarkWrite) :
    (∀ (date : WatermarkDate) (scope : WatermarkKey),
      IsLatest (date.stored o scope :: date.givenFor scope writes)
        (date.stored (o.writeWatermarks writes) scope)) ∧
    (∀ (date : WatermarkDate) (scope : WatermarkKey) (before after : List WatermarkWrite) (d : Int),
      writes = before ++ after → date.stored (o.writeWatermarks before) scope = some d →
        ∃ d', date.stored (o.writeWatermarks writes) scope = some d' ∧ d ≤ d') ∧
    (∀ (date : WatermarkDate) (scope : WatermarkKey) (reordered : List WatermarkWrite),
      writes.Perm reordered →
        date.stored (o.writeWatermarks reordered) scope =
          date.stored (o.writeWatermarks writes) scope) ∧
    ∀ scope, (∀ w ∈ writes, w.scope ≠ scope) →
      (o.writeWatermarks writes).watermarks scope = o.watermarks scope := by
  have hlatest : ∀ (date : WatermarkDate) (scope : WatermarkKey) (ws : List WatermarkWrite),
      IsLatest (date.stored o scope :: date.givenFor scope ws)
        (date.stored (o.writeWatermarks ws) scope) := by
    intro date scope ws
    rw [WatermarkDate.stored_writeWatermarks]
    exact mergedDays_isLatest _ _
  refine ⟨fun date scope => hlatest date scope writes, ?_, ?_, ?_⟩
  · rintro date scope before after d rfl hbefore
    -- What the later writes merge into is what the earlier ones left.
    have hsplit : o.writeWatermarks (before ++ after) =
        (o.writeWatermarks before).writeWatermarks after := List.foldl_append
    have hle : dayRank (some d) ≤ dayRank (mergedDays (some d) (date.givenFor scope after)) :=
      dayRank_le_mergedDays List.mem_cons_self
    rw [hsplit, WatermarkDate.stored_writeWatermarks, hbefore]
    cases hmerged : mergedDays (some d) (date.givenFor scope after) with
    | none =>
        rw [hmerged] at hle
        exact absurd (le_bot_iff.1 hle) (by simp [dayRank])
    | some d' =>
        rw [hmerged] at hle
        exact ⟨d', rfl, WithBot.coe_le_coe.1 hle⟩
  · intro date scope reordered hperm
    have hgiven : (date.givenFor scope reordered).Perm (date.givenFor scope writes) :=
      ((hperm.symm.filter _).map _)
    exact ((hlatest date scope reordered).perm (hgiven.cons _)).unique (hlatest date scope writes)
  · exact fun scope h => watermarks_writeWatermarks_of_ne h

end OaiTables
end Huldra
