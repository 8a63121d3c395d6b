import MdeModulePkg.Base
import MdeModulePkg.Print.ValueToString
import MdeModulePkg.Print.PrintInternal
import MdeModulePkg.UdpIo.NetList
import MdeModulePkg.UdpIo.Port
import MdeModulePkg.UdpIo.CancelDgrams
import MdeModulePkg.UdpIo.Run
import MdeModulePkg.UdpIo.Races
import MdeModulePkg.UdpIo.Safety
import MdeModulePkg.UdpIo.Delivery
import MdeModulePkg.UdpIo.Cancel
import MdeModulePkg.UdpIo.Reentrant
import MdeModulePkg.UdpIo.ReentrantSafety
import MdeModulePkg.UdpIo.ReentrantDelivery
import MdeModulePkg.UdpIo.ReentrantHazard
