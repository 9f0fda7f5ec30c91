import CommandBot.Demo.Samples
import CommandBot.Emission.Build
import CommandBot.Proofs.AttributeHost
import CommandBot.Proofs.CommandNames
import CommandBot.Proofs.CommandOrder
import CommandBot.Proofs.Concealment
import CommandBot.Proofs.Configuration
import CommandBot.Proofs.ConfiguredText
import CommandBot.Proofs.Connectedness
import CommandBot.Proofs.Conversation
import CommandBot.Proofs.EventDelivery
import CommandBot.Proofs.FaultPlaces
import CommandBot.Proofs.GeneratedFile
import CommandBot.Proofs.Isolation
import CommandBot.Proofs.LateListeners
import CommandBot.Proofs.ModulePaths
import CommandBot.Proofs.PanicIsolation
import CommandBot.Proofs.Placement
import CommandBot.Proofs.PreparedLogins
import CommandBot.Proofs.Regeneration
import CommandBot.Proofs.RenderedMatch
import CommandBot.Proofs.ResultTypes
import CommandBot.Proofs.SettingsPrecedence
import CommandBot.Proofs.ShutDown
import CommandBot.Proofs.WholeBuild
import CommandBot.Proofs.WithoutMarkers
