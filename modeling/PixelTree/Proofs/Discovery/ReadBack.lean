import PixelTree.Discovery.Supply
import PixelTree.Proofs.Json.ReadBack
import PixelTree.Proofs.Net.Dotted

/-! Supplies read back from the JSON text that is printed for them. -/

namespace PixelTree

namespace Json

theorem mapM_map_of_forall {α β γ : Type} {f : β → Option γ} {g : α → β} {h : α → γ}
    {row : List α} (each : ∀ a ∈ row, f (g a) = some (h a))
    : (row.map g).mapM f = some (row.map h) := by
  induction row with
  | nil => rfl
  | cons a row ih =>
      obtain ⟨first, others⟩ := List.forall_mem_cons.mp each
      simp [first, ih others]

/-- Of several members with different keys, one has the key of a given one. -/
theorem filter_key_eq {τ : Type} {members : List (String × τ)} {member : String × τ}
    (distinct : (members.map Prod.fst).Nodup) (found : member ∈ members)
    : members.filter (fun other => other.1 == member.1) = [member] := by
  induction members with
  | nil => cases found
  | cons first others ih =>
      obtain ⟨fresh, distinct⟩ := List.nodup_cons.mp distinct
      rcases List.mem_cons.mp found with rfl | later
      · have none : others.filter (fun other => other.1 == member.1) = [] := by
          rw [List.filter_eq_nil_iff]
          intro other found same
          exact fresh (List.mem_map.mpr ⟨other, found, eq_of_beq same⟩)
        rw [List.filter_cons, if_pos (beq_self_eq_true _), none]
      · have differs : ¬ (first.1 == member.1) = true := by
          intro same
          exact fresh (List.mem_map.mpr ⟨member, later, (eq_of_beq same).symm⟩)
        rw [List.filter_cons, if_neg differs, ih distinct later]

/-- The fields of an object with different keys are its values, in order. -/
theorem fields?_object {members : List (String × Json String)}
    (distinct : (members.map Prod.fst).Nodup)
    : (Json.object members).found.fields? (members.map Prod.fst)
      = some (members.map (fun member => some member.2.found)) := by
  have keyed : (members.map (fun member => (some member.1, member.2.found))).mapM
        (fun member => member.1.map (·, member.2))
      = some (members.map (fun member => (member.1, member.2.found))) :=
    mapM_map_of_forall (fun member _ => rfl)
  have distinctKeys
      : ((members.map (fun member => (member.1, member.2.found))).map Prod.fst).Nodup := by
    rwa [List.map_map]
  rw [Json.found, foundMembers_eq_map, fields?, keyed]
  refine mapM_map_of_forall ?_
  intro member found
  have listed : (member.1, member.2.found)
      ∈ members.map (fun member => (member.1, member.2.found)) :=
    List.mem_map_of_mem found
  have single := filter_key_eq distinctKeys listed
  rw [single]

theorem toText?_text (s : String) : (Json.text s).found.toText? = some s :=
  rfl

/-- The members of an array are read back if each of them is. -/
theorem toList?_array {α : Type} {item? : Found → Option α} {print : α → Json String}
    {row : List α} (each : ∀ a ∈ row, item? (print a).found = some a)
    : (Json.array (row.map print)).found.toList? item? = some row := by
  have items : ((row.map print).map found).mapM item? = some (row.map id) := by
    rw [List.map_map]
    exact mapM_map_of_forall each
  rw [Json.found, foundItems_eq_map, toList?, items, List.map_id]

end Json

namespace Discovery

namespace Supply

open Json (Within fields?_object)

theorem within_portToJson {depth : Nat} (port : Kinet.Port)
    : Within (depth + 2) (portToJson port) := by
  refine .object ?_
  simp only [List.forall_mem_cons, List.not_mem_nil, false_imp_iff, implies_true, and_true]
  exact ⟨.number _, .number _, .number _⟩

theorem within_toJson {depth : Nat} (supply : Supply) : Within (depth + 4) supply.toJson := by
  refine .object ?_
  simp only [List.forall_mem_cons, List.not_mem_nil, false_imp_iff, implies_true, and_true]
  refine ⟨.text _, .text _, .number _, .number _, .number _, .text _, .text _, .array ?_⟩
  intro json member
  obtain ⟨port, _, rfl⟩ := List.mem_map.mp member
  exact within_portToJson port

/-- A number of a field is read back below the limit of the field. -/
theorem toNatural?_ofNatural {limit n : Nat} (below : n < limit)
    : (ofNatural n).found.toNatural? limit = some n :=
  Numeral.natural?_decimal below

theorem portOfJson?_found (port : Kinet.Port)
    : portOfJson? (portToJson port).found = some port := by
  have distinct : ["port", "port_type", "lights"].Nodup := by decide
  have fields : (portToJson port).found.fields? ["port", "port_type", "lights"] = _ :=
    fields?_object distinct
  rw [portOfJson?, fields]
  simp [toNatural?_ofNatural port.number.toNat_lt, toNatural?_ofNatural port.kind.toNat_lt,
    toNatural?_ofNatural port.lights.toNat_lt]

theorem ofJson?_found (supply : Supply) : ofJson? supply.toJson.found = some supply := by
  have distinct
      : ["ip", "mac", "kinet_version", "serial", "universe", "name", "info", "ports"].Nodup := by
    decide
  have fields : supply.toJson.found.fields?
      ["ip", "mac", "kinet_version", "serial", "universe", "name", "info", "ports"] = _ :=
    fields?_object distinct
  have ports : (Json.array (supply.ports.map portToJson)).found.toList? portOfJson?
      = some supply.ports :=
    Json.toList?_array (fun port _ => portOfJson?_found port)
  rw [ofJson?, fields]
  simp [toNatural?_ofNatural supply.kinetVersion.toNat_lt,
    toNatural?_ofNatural supply.serial.toNat_lt, toNatural?_ofNatural supply.dmxUniverse.toNat_lt,
    Json.toText?_text, Net.Ipv4.parse?_display, ports]

end Supply

/-- Supplies are read back from what is printed for them: addresses, numbers, texts of any
characters and ports, in order.
-/
theorem supplies?_pretty (supplies : List Supply)
    : supplies? (Json.pretty 0 (.array (supplies.map Supply.toJson))) = some supplies := by
  have within : Json.Within 5 (.array (supplies.map Supply.toJson)) := by
    refine .array ?_
    intro json member
    obtain ⟨supply, _, rfl⟩ := List.mem_map.mp member
    exact supply.within_toJson
  rw [supplies?, Json.parse?_pretty within]
  exact Json.toList?_array (fun supply _ => supply.ofJson?_found)

end Discovery

end PixelTree
