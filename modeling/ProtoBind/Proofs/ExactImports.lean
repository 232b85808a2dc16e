import ProtoBind.Proofs.ApiImports
import ProtoBind.Proofs.ModelImports

/-!
# Files bring in what they use

Both files that are emitted for a schema file bring in exactly what their bodies use.
-/

set_option autoImplicit false

namespace ProtoBind

open Emit

namespace Project

/-- Wherever a pass succeeds, what the emitted file brings in fits its body. -/
theorem imports_fit (project : Project) (place : Nat) :
    (∀ model, project.model place = .ok model → ∃ fixed paths,
        model.ImportsFit project.config.params (project.scope place .model) fixed paths) ∧
      ∀ api, project.api place = .ok api → ∃ fixed paths,
        api.ImportsFit project.config (project.scope place .api) fixed paths := by
  constructor
  · exact fun model hModel => ⟨_, _, ModelFile.importsFit project.config.params hModel⟩
  · exact fun api hApi => ⟨_, _, ApiFile.importsFit hApi project.config⟩

/-- A file with a map to what another package declares, and a service that takes that from the body of a
request. -/
def orderFiles : List FileDecl :=
  [{ name := "stock/item.proto", package := "stock",
     messages := [.mk "Item" [{ name := "id", type := .string }] [] [] [] [] [] [] false false []] },
   { name := "shop/order.proto", package := "shop", imports := ["stock/item.proto"],
     messages := [.mk "Order"
       [{ name := "items", label := .repeated, type := .message, typeName := ".shop.Order.ItemsEntry" }]
       [.mk "ItemsEntry" [{ name := "key", type := .string },
            { name := "value", type := .message, typeName := ".stock.Item" }]
          [] [] [] [] [] [] true false []]
       [] [] [] [] [] false false []],
     services := [
       { name := "Orders",
         methods := [{ name := "Add", inputType := ".stock.Item", outputType := ".shop.Order" }] }] }]

def orderRules : Http.Rules := .ofList [("shop.Orders.Add", { pattern := some (.post "/orders") })]

theorem imports_fit_orderFiles : ∃ (g : Graph) (index : NameIndex) (model : ModelFile) (api : ApiFile),
    Graph.prepare orderFiles ["shop/order.proto"] {} = .ok (g, index) ∧
      Project.model ⟨g, index, orderRules, {}⟩ 1 = .ok model ∧
      Project.api ⟨g, index, orderRules, {}⟩ 1 = .ok api ∧
      model.uses {} = [serdeUse, mapUse, "use crate::stock;"].map code ∧
      (∃ fixed paths, model.ImportsFit {} ⟨g, index, 1, .model⟩ fixed paths) ∧
      (∃ fixed paths, api.ImportsFit {} ⟨g, index, 1, .api⟩ fixed paths) ∧
      ∃ text ∈ codeTexts (api.body {}), Headed bindingHeads text := by
  obtain ⟨g, index, model, api, hPrepare, hModel, hApi, hUses, hBinding⟩ :
      ∃ (g : Graph) (index : NameIndex) (model : ModelFile) (api : ApiFile),
        Graph.prepare orderFiles ["shop/order.proto"] {} = .ok (g, index) ∧
          Project.model ⟨g, index, orderRules, {}⟩ 1 = .ok model ∧
          Project.api ⟨g, index, orderRules, {}⟩ 1 = .ok api ∧
          model.uses {} = [serdeUse, mapUse, "use crate::stock;"].map code ∧
          code (ApiFile.bindingUse {}) ∈ api.uses {} :=
    ⟨_, _, _, _, rfl, rfl, rfl, by decide +kernel, by decide +kernel⟩
  obtain ⟨hModels, hApis⟩ := imports_fit ⟨g, index, orderRules, {}⟩ 1
  obtain ⟨fixed, paths, hFit⟩ := hApis api hApi
  exact ⟨g, index, model, api, hPrepare, hModel, hApi, hUses, hModels model hModel, ⟨fixed, paths, hFit⟩,
    hFit.binding.mp hBinding⟩

end Project

end ProtoBind
