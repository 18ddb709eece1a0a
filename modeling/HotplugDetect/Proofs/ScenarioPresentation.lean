import HotplugDetect.Proofs.Json.Decoded
import HotplugDetect.Proofs.Json.Values
import HotplugDetect.Proofs.ScenarioText

/-! # The presentation of a scenario

In which order the members of its records stand, which unknown members stand between them, which
members with the default value are written, and where blanks stand: none of this changes the
scenario that a text is decoded as.
-/

namespace HotplugDetect

section Words

theorem Pin.codec_vets : Pin.codec.Vets := Codec.choice_vets

theorem Port.codec_vets : Port.codec.Vets := Codec.choice_vets

theorem PollMode.codec_vets : PollMode.codec.Vets := Codec.choice_vets

end Words

section Settings

theorem PlatformCaps.record_lawful : PlatformCaps.record.Lawful :=
  ⟨by decide, by simp [PlatformCaps.record]⟩

theorem PlatformCaps.record_vets : PlatformCaps.record.Vets :=
  List.forall_iff_forall_mem.mp ⟨Codec.flag_vets.field, Codec.flag_vets.field,
    Codec.flag_vets.field, Codec.flag_vets.field⟩

theorem StormSettings.record_lawful : StormSettings.record.Lawful :=
  ⟨by decide, by simp [StormSettings.record]⟩

theorem StormSettings.record_vets : StormSettings.record.Vets :=
  List.forall_iff_forall_mem.mp ⟨Codec.word32_vets.field, Codec.flag_vets.optional.field,
    Codec.word64_vets.field, Codec.word64_vets.field, Codec.flag_vets.field⟩

namespace Settings

/-- The records inside the settings may be reworded in turn. -/
def Content : String → Rewording
  | "platform" => PlatformCaps.record.Alike fun _ => Unchanged
  | "storm" => StormSettings.record.Alike fun _ => Unchanged
  | _ => Unchanged

def Alike : Rewording := record.Alike Content

theorem record_lawful : record.Lawful :=
  ⟨by decide, by simp [record]⟩

theorem record_vets : record.Vets :=
  List.forall_iff_forall_mem.mp ⟨(PlatformCaps.record_vets.codec PlatformCaps.record_lawful).field,
    (StormSettings.record_vets.codec StormSettings.record_lawful).field⟩

theorem record_respects (place : Place) : record.Respects place Content := by
  have hplatform : PlatformCaps.record.codec.Respects place _ :=
    Record.codec_respects PlatformCaps.record_lawful fun _ _ => Record.respects_unchanged
  have hstorm : StormSettings.record.codec.Respects place _ :=
    Record.codec_respects StormSettings.record_lawful fun _ _ => Record.respects_unchanged
  exact List.forall_iff_forall_mem.mp ⟨hplatform.field, hstorm.field⟩

theorem codec_respects (place : Place) : codec.Respects place (Alike place) :=
  Record.codec_respects record_lawful fun inner _ => record_respects inner

end Settings

end Settings

section Hardware

namespace ConnectorSpec

def Alike : Rewording := record.Alike fun _ => Unchanged

theorem record_lawful : record.Lawful :=
  ⟨by decide, by simp [record]⟩

theorem record_vets : record.Vets :=
  List.forall_iff_forall_mem.mp ⟨Codec.text_vets.field, Pin.codec_vets.optional.field,
    PollMode.codec_vets.field, Codec.flag_vets.field, Codec.flag_vets.field⟩

theorem codec_respects (place : Place) : codec.Respects place (Alike place) :=
  Record.codec_respects record_lawful fun _ _ => Record.respects_unchanged

end ConnectorSpec

namespace DigitalPortSpec

def Alike : Rewording := record.Alike fun _ => Unchanged

theorem record_lawful : record.Lawful :=
  ⟨by decide, by simp [record]⟩

theorem record_vets : record.Vets :=
  List.forall_iff_forall_mem.mp ⟨Port.codec_vets.field, Codec.flag_vets.field,
    Codec.flag_vets.field⟩

theorem codec_respects (place : Place) : codec.Respects place (Alike place) :=
  Record.codec_respects record_lawful fun _ _ => Record.respects_unchanged

end DigitalPortSpec

end Hardware

namespace Step

section Laws

theorem irqRecord_lawful : irqRecord.Lawful :=
  ⟨by decide, by simp [irqRecord]⟩

theorem rawRecord_lawful : rawRecord.Lawful :=
  ⟨by decide, by simp [rawRecord]⟩

theorem plugRecord_lawful : plugRecord.Lawful :=
  ⟨by decide, by simp [plugRecord]⟩

theorem single_lawful {α : Type} (name key : String) (c : Codec α) (initial : α) :
    (single name key c initial).Lawful where
  nodup := List.pairwise_singleton _ key
  apart := List.pairwise_singleton _ _

theorem initRecord_lawful : initRecord.Lawful where
  nodup := List.Pairwise.nil
  apart := List.Pairwise.nil

end Laws

/-- The record of the fields that stand beside a name. -/
inductive Beside : String → ∀ {σ : Type}, Record σ → Prop
  | irq : Beside "irq" irqRecord
  | raw : Beside "raw" rawRecord
  | wait : Beside "wait" waitRecord
  | plug : Beside "plug" plugRecord
  | disablePin : Beside "disable_pin" disablePinRecord
  | enablePin : Beside "enable_pin" enablePinRecord
  | forcePolling : Beside "force_polling" forcePollingRecord
  | irqsEnabled : Beside "irqs_enabled" irqsEnabledRecord
  | threshold : Beside "storm_ctl" thresholdRecord
  | shortStorms : Beside "short_storm_ctl" shortStormsRecord
  | init : Beside "init" initRecord

theorem Beside.reads {key : String} {σ : Type} {r : Record σ} (h : Beside key r) :
    tagged.Reads key r := by
  cases h with
  | irq => exact ⟨irqRecord_lawful, by decide, _, rfl⟩
  | raw => exact ⟨rawRecord_lawful, by decide, _, rfl⟩
  | wait => exact ⟨single_lawful .., by decide, _, rfl⟩
  | plug => exact ⟨plugRecord_lawful, by decide, _, rfl⟩
  | disablePin => exact ⟨single_lawful .., by decide, _, rfl⟩
  | enablePin => exact ⟨single_lawful .., by decide, _, rfl⟩
  | forcePolling => exact ⟨single_lawful .., by decide, _, rfl⟩
  | irqsEnabled => exact ⟨single_lawful .., by decide, _, rfl⟩
  | threshold => exact ⟨single_lawful .., by decide, _, rfl⟩
  | shortStorms => exact ⟨single_lawful .., by decide, _, rfl⟩
  | init => exact ⟨initRecord_lawful, by decide, _, rfl⟩

def Alike : Rewording := tagged.Alike Beside

theorem codec_respects (depth : Nat) :
    codec.Respects (.streamed depth) (Alike (.streamed depth)) :=
  Tagged.codec_respects Beside.reads

end Step

namespace Scenario

/-- The settings, the hardware and the steps may be reworded in turn. -/
def Content : String → Rewording
  | "settings" => Settings.Alike
  | "connectors" => Each ConnectorSpec.Alike
  | "digital_ports" => Each DigitalPortSpec.Alike
  | "steps" => Each Step.Alike
  | _ => Unchanged

/-- Two presentations of a scenario. -/
def Alike : Rewording := record.Alike Content

theorem record_lawful : record.Lawful :=
  ⟨by decide, by simp [record]⟩

theorem record_vets : record.Vets :=
  List.forall_iff_forall_mem.mp ⟨Codec.text_vets.optional.field,
    (Settings.record_vets.codec Settings.record_lawful).optional.field,
    (ConnectorSpec.record_vets.codec ConnectorSpec.record_lawful).list.field,
    (DigitalPortSpec.record_vets.codec DigitalPortSpec.record_lawful).list.field,
    Tagged.codec_vets.list.field⟩

theorem record_respects (depth : Nat) : record.Respects (.streamed depth) Content := by
  have hname : (Codec.optional .text).Respects (.streamed depth) (Unchanged (.streamed depth)) := by
    rintro n _ a rfl hread
    exact hread
  have hsettings := (Settings.codec_respects (.streamed depth)).optional
    fun _ _ => Record.Alike.null_iff
  have hconnectors : (Codec.list ConnectorSpec.codec).Respects (.streamed depth) _ :=
    Codec.Respects.list fun inner _ => ConnectorSpec.codec_respects inner
  have hports : (Codec.list DigitalPortSpec.codec).Respects (.streamed depth) _ :=
    Codec.Respects.list fun inner _ => DigitalPortSpec.codec_respects inner
  have hsteps : (Codec.list Step.codec).Respects (.streamed depth)
      (Each Step.Alike (.streamed depth)) := by
    refine Codec.Respects.list fun inner hinner => ?_
    obtain rfl := Codec.enter_streamed hinner
    exact Step.codec_respects _
  exact List.forall_iff_forall_mem.mp ⟨hname.field, hsettings.field, hconnectors.field,
    hports.field, hsteps.field⟩

theorem codec_respects (depth : Nat) :
    codec.Respects (.streamed depth) (Alike (.streamed depth)) := by
  refine Record.codec_respects record_lawful fun inner hinner => ?_
  obtain rfl := Codec.enter_streamed hinner
  exact record_respects _

/-- A text that is decoded spells a value. Any text that spells the value or another presentation of
it, with whatever blanks, is decoded as the same scenario. A printed value may be added if its
numbers have 64 bits and its nesting is allowed; in the innermost records of a scenario the depth is
125. -/
theorem presentation_makes_no_difference {text : String} {s : Scenario}
    (h : codec.decode text = .ok s) :
    (∃ n : Node, n.Spelled text) ∧
    (∀ (n n' : Node) (text' : String), n.Spelled text → Alike (.streamed nestingLimit) n n' →
      n'.Spelled text' → codec.decode text' = .ok s ∧ parse text' = parse text) ∧
    ∀ (j : Json) (l : Json.Layout) (depth : Nat), j.fits = true → j.nesting < depth →
      (Node.ofJson j).storable depth = true ∧ (Node.ofJson j).Spells (Json.print l j) := by
  have hvets : codec.Vets := record_vets.codec record_lawful
  refine ⟨hvets.exists_spelled h, fun n n' text' htext halike htext' => ?_,
    fun j l depth hfits hnesting => ⟨Node.storable_ofJson j hfits hnesting, Node.spells_print j l⟩⟩
  have hdecode : codec.decode text' = .ok s := by
    rw [Codec.decode_of_spelled htext']
    rw [Codec.decode_of_spelled htext] at h
    exact codec_respects nestingLimit halike h
  exact ⟨hdecode, congrArg checked (hdecode.trans h.symm)⟩

def oneInterrupt : Scenario where
  steps := [.irq [.portB] [] 1]

/-- Its name comes last, what has the default value is left out, and something unknown is added. -/
def oneInterruptReworded : Json :=
  .object [("extra", .array [.null, .number 3]),
    ("steps", .array [.object [("pins", .array [.text "port_b"]), ("op", .text "irq")]])]

theorem oneInterrupt_alike :
    Alike (.streamed nestingLimit) (.ofJson (codec.write oneInterrupt))
      (.ofJson oneInterruptReworded) := by
  have hstep : Step.Alike (.streamed 126) (.ofJson (Step.codec.write (.irq [.portB] [] 1)))
      (.ofJson (.object [("pins", .array [.text "port_b"]), ("op", .text "irq")])) := by
    refine .object rfl .irq (.refl _) (.swap _ _ _) ?_
    refine .trans (.permute (@List.perm_append_comm _ [_] [_, _])) ?_
    refine .trans (.leave (.tail _ (.head _)) rfl rfl (by decide)) ?_
    exact .leave (.tail _ (.tail _ (.head _))) rfl rfl (by decide)
  refine .object rfl ?_
  refine .trans (.leave (.head _) rfl rfl (by decide)) ?_
  refine .trans (.leave (.tail _ (.head _)) rfl rfl (by decide)) ?_
  refine .trans (.leave (.tail _ (.tail _ (.head _))) rfl rfl (by decide)) ?_
  refine .trans (.leave (.tail _ (.tail _ (.tail _ (.head _)))) rfl rfl (by decide)) ?_
  refine .trans (.inside _ (.tail _ (.tail _ (.tail _ (.tail _ (.head _))))) ?_)
    (.insert _ ?_ ?_ ?_)
  · exact Each.array rfl (.cons hstep .nil)
  · decide
  · decide
  · decide

theorem presentation_makes_no_difference_one_interrupt :
    codec.decode (codec.write oneInterrupt).compact = .ok oneInterrupt ∧
      codec.decode oneInterruptReworded.pretty = .ok oneInterrupt := by
  have hdecode : codec.decode (codec.write oneInterrupt).compact = .ok oneInterrupt :=
    oneInterrupt.decode_print none
  obtain ⟨-, hreworded, -⟩ := presentation_makes_no_difference hdecode
  exact ⟨hdecode, (hreworded _ _ _ (Node.spelled_print _ none) oneInterrupt_alike
    (Node.spelled_print _ (some 0))).1⟩

end Scenario

end HotplugDetect
