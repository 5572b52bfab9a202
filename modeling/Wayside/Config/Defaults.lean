/-
# Defaults

The rules that are searched for and the table that names and marks what is found,
unless files with others are given.

* `defaultRules`, `defaultTable`.
-/

import Wayside.Classify.Table
import Wayside.Rule.Basic

namespace Wayside

open Numeric Json

/-- The radius in meters of the default rules. -/
def defaultRuleRadius : Option Binary64 := some (.ofNat 80)

/-- A default rule. -/
def defaultRule (name : String) (conditions : List Condition) : Rule :=
  ⟨some name, defaultRuleRadius, conditions⟩

/-- What is searched for by default. -/
def defaultRules : List Rule :=
  [defaultRule "food-and-facilities"
    [.oneOf "amenity"
      ["bar", "biergarten", "cafe", "fast_food", "food_court", "fuel", "ice_cream", "pub",
        "restaurant", "bicycle_repair_station", "compressed_air", "drinking_water", "shelter",
        "toilets", "water_point", "marketplace", "place_of_worship"]],
   defaultRule "lodging-and-sights"
    [.oneOf "tourism"
      ["alpine_hut", "camp_pitch", "camp_site", "guest_house", "hostel", "picnic_site",
        "viewpoint", "wilderness_hut"]],
   defaultRule "drinkable-fountains"
    [.oneOf "amenity" ["fountain"], .noneOf "drinking_water" ["no"],
      .presence "drinking_water" true],
   defaultRule "parks"
    [.oneOf "leisure" ["nature_reserve", "park", "picnic_table", "wildlife_hide"]],
   defaultRule "natural-features" [.oneOf "natural" ["spring", "peak"]],
   defaultRule "water-sources" [.oneOf "man_made" ["spring_box", "water_well", "water_tap"]]]

/-- A symbol and the tags that ask for it. -/
def symbolFor (symbol : String) (pairs : List (String × String)) : SymbolRule :=
  ⟨.ofList pairs, symbol⟩

/-- How what is found is named and marked by default. -/
def defaultTable : Table where
  nameKeys := ["name", "amenity", "tourism", "leisure", "natural", "man_made"]
  symbols :=
    [symbolFor "Park" [("leisure", "park")],
     symbolFor "Restroom" [("amenity", "toilets")],
     symbolFor "Drinking Water" [("amenity", "drinking_water")],
     symbolFor "Summit" [("natural", "peak")],
     symbolFor "Scenic Area" [("tourism", "viewpoint")],
     symbolFor "Mine" [("amenity", "bicycle_repair_station")],
     symbolFor "Fast Food" [("amenity", "fast_food")],
     symbolFor "Gas Station" [("amenity", "fuel")],
     symbolFor "Bar" [("amenity", "pub")],
     symbolFor "Restaurant" [("amenity", "cafe")],
     symbolFor "Picnic Area" [("tourism", "picnic_site")],
     symbolFor "Pizza" [("amenity", "restaurant"), ("cuisine", "pizza")],
     symbolFor "Restaurant" [("amenity", "restaurant")],
     symbolFor "Fast Food" [("amenity", "ice_cream")],
     symbolFor "Campground" [("tourism", "camp_pitch")],
     symbolFor "Park" [("leisure", "nature_reserve")],
     symbolFor "Building" [("amenity", "shelter")],
     symbolFor "Church" [("amenity", "place_of_worship")]]

end Wayside
