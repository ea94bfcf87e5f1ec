import DeviceForge.Legacy.Reading
import DeviceForge.Proofs.Completion
import DeviceForge.Proofs.Development
import DeviceForge.Proofs.Device.Lineage
import DeviceForge.Proofs.Device.Renaming
import DeviceForge.Proofs.Device.StateRemoval
import DeviceForge.Proofs.Interface.Constraints
import DeviceForge.Proofs.Legacy.Accounting
import DeviceForge.Proofs.Legacy.Fragments
import DeviceForge.Proofs.Legacy.Generation
import DeviceForge.Proofs.Legacy.MethodBodies
import DeviceForge.Proofs.Merge.Report
import DeviceForge.Proofs.Session
import DeviceForge.Proofs.Source.BlockComments
import DeviceForge.Proofs.Source.Buffers
import DeviceForge.Proofs.Source.Commented
import DeviceForge.Proofs.Source.Definitions
import DeviceForge.Proofs.Source.Docstring
import DeviceForge.Proofs.Source.FileNames
import DeviceForge.Proofs.Source.Insertion
import DeviceForge.Proofs.Source.Literal
import DeviceForge.Proofs.Source.MemberZones
import DeviceForge.Proofs.Source.Unforged
import DeviceForge.Proofs.Zone.Damage
import DeviceForge.Proofs.Zone.Intact
import DeviceForge.Session
import DeviceForge.Settings.Reading
