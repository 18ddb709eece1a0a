import HotplugDetect.Proofs.Json.Codecs
import HotplugDetect.Scenario.Basic

/-! # The text of a scenario

Every scenario is read back from the text it is written as, on one line or on many, and a valid one
is parsed from it.
-/

namespace HotplugDetect

section Words

theorem Pin.codec_faithful : Pin.codec.Faithful 0 :=
  Codec.choice_faithful fun p => by cases p <;> decide

theorem Port.codec_faithful : Port.codec.Faithful 0 :=
  Codec.choice_faithful fun p => by cases p <;> decide

theorem PollMode.codec_faithful : PollMode.codec.Faithful 0 :=
  Codec.choice_faithful fun m => by cases m <;> decide

end Words

section Settings

theorem PlatformCaps.record_faithful : PlatformCaps.record.Faithful 0 where
  fields := ⟨_, .cons (Codec.flag_faithful.field le_rfl ..) <|
    .cons (Codec.flag_faithful.field le_rfl ..) <|
    .cons (Codec.flag_faithful.field le_rfl ..) <|
    .cons (Codec.flag_faithful.field le_rfl ..) .nil, fun _ => rfl⟩
  nodup := by decide

theorem StormSettings.record_faithful : StormSettings.record.Faithful 0 where
  fields := ⟨_, .cons (Codec.word32_faithful.field le_rfl ..) <|
    .cons ((Codec.flag_faithful.optional (fun _ => nofun)).field le_rfl ..) <|
    .cons (Codec.word64_faithful.field le_rfl ..) <|
    .cons (Codec.word64_faithful.field le_rfl ..) <|
    .cons (Codec.flag_faithful.field le_rfl ..) .nil, fun _ => rfl⟩
  nodup := by decide

theorem Settings.record_faithful : Settings.record.Faithful 1 where
  fields := ⟨_, .cons (PlatformCaps.record_faithful.codec.field le_rfl ..) <|
    .cons (StormSettings.record_faithful.codec.field le_rfl ..) .nil, fun _ => rfl⟩
  nodup := by decide

theorem Settings.codec_faithful : Settings.codec.Faithful 2 := record_faithful.codec

end Settings

section Hardware

theorem ConnectorSpec.codec_faithful : ConnectorSpec.codec.Faithful 1 :=
  have h : record.Faithful 0 := {
    fields := ⟨_, .cons (Codec.text_faithful.field le_rfl ..) <|
      .cons ((Pin.codec_faithful.optional (fun _ => nofun)).field le_rfl ..) <|
      .cons (PollMode.codec_faithful.field le_rfl ..) <|
      .cons (Codec.flag_faithful.field le_rfl ..) <|
      .cons (Codec.flag_faithful.field le_rfl ..) .nil, fun _ => rfl⟩
    nodup := by decide }
  h.codec

theorem DigitalPortSpec.codec_faithful : DigitalPortSpec.codec.Faithful 1 :=
  have h : record.Faithful 0 := {
    fields := ⟨_, .cons (Port.codec_faithful.field le_rfl ..) <|
      .cons (Codec.flag_faithful.field le_rfl ..) <|
      .cons (Codec.flag_faithful.field le_rfl ..) .nil, fun _ => rfl⟩
    nodup := by decide }
  h.codec

end Hardware

namespace Step

theorem irqRecord_faithful : irqRecord.Faithful 1 where
  fields := ⟨_, .cons (Pin.codec_faithful.list.field le_rfl ..) <|
    .cons (Pin.codec_faithful.list.field le_rfl ..) <|
    .cons (Codec.word32_faithful.field (by decide) ..) .nil, fun _ => rfl⟩
  nodup := by decide

theorem rawRecord_faithful : rawRecord.Faithful 1 where
  fields := ⟨_, .cons (Codec.word32_faithful.field (by decide) ..) <|
    .cons (Codec.word32_faithful.field (by decide) ..) .nil, fun _ => rfl⟩
  nodup := by decide

theorem plugRecord_faithful : plugRecord.Faithful 1 where
  fields := ⟨_, .cons (Codec.text_faithful.field (by decide) ..) <|
    .cons (Codec.flag_faithful.field (by decide) ..) .nil, fun _ => rfl⟩
  nodup := by decide

theorem single_faithful {α : Type} {c : Codec α} (hc : c.Faithful 0) (name key : String)
    (initial : α) : (single name key c initial).Faithful 1 where
  fields := ⟨_, .cons (hc.field (by decide) ..) .nil, fun _ => rfl⟩
  nodup := List.pairwise_singleton _ key

theorem initRecord_faithful : initRecord.Faithful 1 where
  fields := ⟨[], .nil, fun _ => rfl⟩
  nodup := by decide

theorem writes (s : Step) : tagged.Writes 1 s := by
  cases s with
  | irq pins long times =>
    exact .of_record (t := tagged) irqRecord_faithful (by decide)
      (fun s => irq s.1 s.2.1 s.2.2) (pins, long, times) rfl rfl (by decide)
  | raw pinMask longMask =>
    exact .of_record (t := tagged) rawRecord_faithful (by decide)
      (fun s => raw s.1 s.2) (pinMask, longMask) rfl rfl (by decide)
  | wait ms =>
    exact .of_record (single_faithful Codec.word64_faithful ..) (by decide) wait ms rfl rfl
      (by decide)
  | plug connector connected =>
    exact .of_record (t := tagged) plugRecord_faithful (by decide)
      (fun s => plug s.1 s.2) (connector, connected) rfl rfl (by decide)
  | disablePin pin =>
    exact .of_record (single_faithful Pin.codec_faithful ..) (by decide) disablePin pin rfl rfl
      (by decide)
  | enablePin pin =>
    exact .of_record (single_faithful Pin.codec_faithful ..) (by decide) enablePin pin rfl rfl
      (by decide)
  | forcePolling on =>
    exact .of_record (single_faithful Codec.flag_faithful ..) (by decide) forcePolling on rfl rfl
      (by decide)
  | irqsEnabled on =>
    exact .of_record (single_faithful Codec.flag_faithful ..) (by decide) irqsEnabled on rfl rfl
      (by decide)
  | threshold value =>
    exact .of_record (single_faithful Codec.text_faithful ..) (by decide) threshold value rfl rfl
      (by decide)
  | shortStorms value =>
    exact .of_record (single_faithful Codec.text_faithful ..) (by decide) shortStorms value rfl rfl
      (by decide)
  | init => exact .of_record initRecord_faithful (by decide) (fun _ => init) () rfl rfl (by decide)

theorem codec_faithful : Step.codec.Faithful 2 := Tagged.codec_faithful (by decide) writes

end Step

namespace Scenario

theorem codec_faithful : Scenario.codec.Faithful 4 :=
  have h : record.Faithful 3 := {
    fields := ⟨_, .cons ((Codec.text_faithful.optional (fun _ => nofun)).field (by decide) ..) <|
      .cons ((Settings.codec_faithful.optional (fun _ => nofun)).field (by decide) ..) <|
      .cons (ConnectorSpec.codec_faithful.list.field (by decide) ..) <|
      .cons (DigitalPortSpec.codec_faithful.list.field (by decide) ..) <|
      .cons (Step.codec_faithful.list.field (by decide) ..) .nil, fun _ => rfl⟩
    nodup := by decide }
  h.codec

/-- Decoding undoes encoding: every scenario is decoded from its text in either layout. -/
theorem decode_print (s : Scenario) (l : Json.Layout) :
    codec.decode (String.ofList (Json.print l (codec.write s))) = .ok s :=
  codec_faithful.decode_print (by decide) l s

/-- Every scenario, whatever names, settings, hardware and steps it has, is decoded from its compact
and from its pretty text. Parsing either text gives the scenario when it is valid, and else the
fault that the check found. -/
theorem decoded_and_parsed_from_text (s : Scenario) :
    codec.decode (codec.write s).compact = .ok s ∧
    codec.decode (codec.write s).pretty = .ok s ∧
    parse (codec.write s).compact = s.validate.map (fun _ => s) ∧
    parse (codec.write s).pretty = s.validate.map (fun _ => s) := by
  have hcompact := s.decode_print none
  have hpretty := s.decode_print (some 0)
  have hchecked : checked (.ok s) = s.validate.map fun _ => s := by
    simp only [checked, Except.mapError, bind, Except.bind, Except.map]
  refine ⟨hcompact, hpretty, ?_, ?_⟩
  · exact (congrArg checked hcompact).trans hchecked
  · exact (congrArg checked hpretty).trans hchecked

end Scenario

end HotplugDetect
